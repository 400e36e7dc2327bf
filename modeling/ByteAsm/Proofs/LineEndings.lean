import ByteAsm.Proofs.Outcome
import ByteAsm.Proofs.SideBySide

namespace ByteAsm

namespace Source

def IsEnding (t : Text) : Prop :=
  t = ['\n'.toUInt8] ∨ t = ['\r'.toUInt8, '\n'.toUInt8]

-- Lines with an ending behind each. The last one may lack it.
inductive Terminated : List Text → Text → Prop
  | nil : Terminated [] []
  | last {line : Text} : Terminated [line] line
  | cons {line ending rest : Text} {texts : List Text} : IsEnding ending →
    (Terminated texts rest) → Terminated (line :: texts) (line ++ (ending ++ rest))

-- A line that can be told from its ending and stays under the limit with a carriage return.
structure Plain (line : Text) : Prop where
  oneLine  : '\n'.toUInt8 ∉ line
  noReturn : line.getLast? ≠ some '\r'.toUInt8
  short    : line.length ≤ 1048574

-- A line that is read from what is cut off the source.
structure ReadFrom (line raw : Text) : Prop where
  short   : raw.length < lineLimit
  content : content raw = line

variable {line t : Text} {texts : List Text}

theorem Plain.readFrom (h : Plain line) : ReadFrom line line where
  short   := Nat.lt_of_le_of_lt h.short (by decide)
  content := by simp [content, Text.dropEnd?, h.noReturn]

theorem Plain.readFrom_return (h : Plain line) : ReadFrom line (line ++ ['\r'.toUInt8]) where
  short   := by
    rw [List.length_append]
    exact Nat.lt_of_le_of_lt (Nat.add_le_add_right h.short 1) (by decide)
  content := by simp [content, Text.dropEnd?]

theorem lines_append_ending {ending : Text} (h : Plain line) (he : IsEnding ending) (rest : Text) :
    ∃ raw, ReadFrom line raw ∧ lines (line ++ (ending ++ rest)) = raw :: lines rest := by
  cases he
  case inl he =>
    rw [he, List.singleton_append]
    exact ⟨line, h.readFrom, lines_append_newline h.oneLine rest⟩
  case inr he =>
    have hn : '\n'.toUInt8 ∉ line ++ ['\r'.toUInt8] := by
      rw [List.mem_append, List.mem_singleton]
      exact not_or.mpr ⟨h.oneLine, by decide⟩
    have hl := lines_append_newline hn rest
    rw [List.append_assoc] at hl
    exact ⟨_, h.readFrom_return, he ▸ hl⟩

-- A source is cut into its lines again, except that an empty line at the end may be lost.
theorem Terminated.exists_readFrom (ht : Terminated texts t) (hp : ∀ line ∈ texts, Plain line) :
    ∃ kept lost, texts = kept ++ lost ∧ (lost = [] ∨ lost = [[]]) ∧
      List.Forall₂ ReadFrom kept (lines t) := by
  induction ht
  case nil => exact ⟨[], [], rfl, .inl rfl, .nil⟩
  case last line =>
    have hp := List.forall_mem_singleton.mp hp
    by_cases hn : line = []
    case pos =>
      subst hn
      exact ⟨[], [[]], rfl, .inr rfl, .nil⟩
    case neg =>
      refine ⟨[line], [], rfl, .inl rfl, ?_⟩
      rw [lines_of_no_newline hp.oneLine hn]
      exact .cons hp.readFrom .nil
  case cons line ending rest texts he _ hi =>
    have ⟨hline, hp⟩ := List.forall_mem_cons.mp hp
    have ⟨kept, lost, htexts, hlost, hread⟩ := hi hp
    have ⟨raw, hraw, hl⟩ := lines_append_ending hline he rest
    exact ⟨line :: kept, lost, congrArg (line :: ·) htexts, hlost, hl ▸ .cons hraw hread⟩

end Source

namespace Draft

-- The first pass over lines as they are read, none of which is too long.
def addTexts (asm : Assembler) : (n : Nat) → List Text → Draft → Except Error Draft
  | _, [], d => .ok d
  | n, text :: texts, d =>
    (addLine asm n text d).mapError (.onLine n text) >>= addTexts asm (n + 1) texts

variable {asm : Assembler} {n : Nat} {texts raws : List Text} {d : Draft}

theorem addLines_eq_addTexts (h : List.Forall₂ Source.ReadFrom texts raws) :
    addLines asm n raws d = addTexts asm n texts d := by
  induction h generalizing n d
  case nil => rfl
  case cons line raw texts raws hread _ hi =>
    rw [addLines_cons, addTexts, addRaw, if_neg (Nat.not_le_of_lt hread.short), hread.content]
    exact congrArg _ (funext fun d => hi)

theorem addTexts_append_empty (asm : Assembler) (n : Nat) (texts : List Text) (d : Draft) :
    addTexts asm n (texts ++ [[]]) d = addTexts asm n texts d := by
  induction texts generalizing n d
  case nil => rfl
  case cons text texts hi =>
    rw [List.cons_append, addTexts, addTexts]
    exact congrArg _ (funext fun d => hi (n + 1) d)

theorem addLines_of_terminated {t : Text} (ht : Source.Terminated texts t)
    (hp : ∀ line ∈ texts, Source.Plain line) :
    addLines asm n (Source.lines t) d = addTexts asm n texts d := by
  have ⟨kept, lost, htexts, hlost, hread⟩ := ht.exists_readFrom hp
  rw [addLines_eq_addTexts hread, htexts]
  cases hlost
  case inl hlost => rw [hlost, List.append_nil]
  case inr hlost => rw [hlost, addTexts_append_empty]

end Draft

namespace Assembler

open Source (Terminated Plain)

-- An empty last line without an end is not seen, so a line too long to be read behind it would have
-- another number. Other faults of the reader have no line.
theorem assemble_terminated (asm : Assembler) (texts : List Text) (t t' : Text)
    (failure : Option Text) (hp : ∀ line ∈ texts, Plain line) (ht : Terminated texts t)
    (ht' : Terminated texts t') :
    asm.assemble ⟨t, failure.map .fault⟩ = asm.assemble ⟨t', failure.map .fault⟩ := by
  simp only [assemble, Draft.addLines_of_terminated ht hp, Draft.addLines_of_terminated ht' hp]
  cases failure
  case none => rfl
  case some => rfl

-- Endings of both kinds in either source, a carriage return within a line, and an empty last line
-- that only the second source shows.
theorem assemble_terminated_of_listing :
    let x := Text.ofString "x: JMP x"
    let bad := Text.ofString "BAD\r1"
    let lf := ['\n'.toUInt8]
    let crlf := ['\r'.toUInt8, '\n'.toUInt8]
    let t := x ++ (lf ++ ([] ++ (crlf ++ (bad ++ (crlf ++ [])))))
    let t' := x ++ (crlf ++ ([] ++ (lf ++ (bad ++ (lf ++ ([] ++ (crlf ++ [])))))))
    Terminated [x, [], bad, []] t ∧ Terminated [x, [], bad, []] t' ∧
      assemble {} { text := t } = .error (.onLine 2 bad .malformed) ∧
      assemble {} { text := t' } = .error (.onLine 2 bad .malformed) := by
  intro x bad lf crlf t t'
  have hp : ∀ line ∈ [x, [], bad, []], Plain line := by
    have hall : [x, [], bad, []].all fun line => '\n'.toUInt8 ∉ line ∧
        line.getLast? ≠ some '\r'.toUInt8 ∧ line.length ≤ 1048574 := by
      decide +kernel
    intro line hm
    obtain ⟨hn, hr, hs⟩ := of_decide_eq_true (List.all_eq_true.mp hall line hm)
    exact ⟨hn, hr, hs⟩
  have ht : Terminated [x, [], bad, []] t :=
    .cons (.inl rfl) (.cons (.inr rfl) (.cons (.inr rfl) .last))
  have ht' : Terminated [x, [], bad, []] t' :=
    .cons (.inr rfl) (.cons (.inl rfl) (.cons (.inl rfl) (.cons (.inr rfl) .nil)))
  have h : assemble {} { text := t } = .error (.onLine 2 bad .malformed) := by decide +kernel
  exact ⟨ht, ht', h, assemble_terminated {} [x, [], bad, []] t t' none hp ht ht' ▸ h⟩

end Assembler

end ByteAsm
