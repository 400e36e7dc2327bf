import ByteAsm.Proofs.Linking
import ByteAsm.Proofs.Pieces
import ByteAsm.Proofs.Reading
import ByteAsm.Proofs.SourceLines

namespace ByteAsm

namespace Expansion

-- What is copied holds no line feed, and neither do the digits of values.
theorem newline_not_mem_expand {value? : Text → Option Int} {t r : Text} (ht : '\n'.toUInt8 ∉ t)
    (h : expand value? t = .ok r) : '\n'.toUInt8 ∉ r := by
  unfold expand at h
  split at h
  case isTrue => exact (replace_eq_ok_iff.mp h).not_mem (by decide) ht
  case isFalse =>
    cases h
    exact ht

end Expansion

namespace Line

variable {t : Text} {line : Line}

-- A carriage return at the end of encoded characters is the last of them, since the last byte of
-- any character beyond ASCII is larger.
theorem ofChars_dropLast {cs : List Char} (h : t ++ ['\r'.toUInt8] = Text.ofChars cs) :
    t = Text.ofChars cs.dropLast := by
  rcases List.eq_nil_or_concat cs with hn | ⟨ws, w, he⟩
  case inl => simp [hn, Text.ofChars] at h
  case inr =>
    rw [List.concat_eq_append] at he
    simp only [he, Text.ofChars, List.flatMap_append, List.flatMap_singleton] at h
    rw [he, List.dropLast_concat]
    by_cases hw : w.toNat < 0x80
    case pos =>
      rw [Text.encode_one hw] at h
      exact List.append_inj_left' h rfl
    case neg =>
      have hge := Text.le_of_mem_encode (Nat.le_of_not_lt hw)
      rcases List.eq_nil_or_concat (String.utf8EncodeChar w) with hn | ⟨bs, b, hb⟩
      case inl =>
        obtain ⟨b, bs, hb, _⟩ := Text.firstPiece_encode w []
        simp [hn] at hb
      case inr =>
        rw [hb, List.concat_eq_append, ←List.append_assoc] at h
        have hr := List.append_inj_right' h rfl
        have hm : '\r'.toUInt8 ∈ String.utf8EncodeChar w := by simp [hb, ←hr]
        exact absurd (hge _ hm) (by decide)

-- A carriage return at the end of a tail is white space or belongs to the comment.
theorem Tail.of_append_return (h : Tail (t ++ ['\r'.toUInt8])) : Tail t := by
  obtain ⟨cs, rest, hcs, ht, hr⟩ := h
  rcases List.eq_nil_or_concat rest with hn | ⟨front, c, he⟩
  case inl =>
    rw [hn, List.append_nil] at ht
    refine ⟨cs.dropLast, [], fun c hc => hcs c (List.dropLast_subset cs hc), ?_, .inl rfl⟩
    rw [List.append_nil, ←ofChars_dropLast ht]
  case inr =>
    rw [List.concat_eq_append] at he
    rw [he, ←List.append_assoc] at ht
    obtain ⟨hl, hc⟩ := List.append_inj' ht rfl
    refine ⟨cs, front, hcs, hl, ?_⟩
    cases front
    case nil => exact .inl rfl
    case cons => simpa [he] using hr

-- No carriage return stands at the end.
def EndsClear (p : Text) : Prop :=
  p.getLast? ≠ some '\r'.toUInt8

theorem EndsClear.append {p q : Text} (hp : EndsClear p) (hq : EndsClear q) :
    EndsClear (p ++ q) := by
  unfold EndsClear at *
  rw [List.getLast?_append]
  cases h : q.getLast?
  case none => simpa using hp
  case some c => simpa [h] using hq

theorem endsClear_snoc {c : UInt8} (p : Text) (h : c ≠ '\r'.toUInt8) : EndsClear (p ++ [c]) := by
  simpa [EndsClear] using h

theorem endsClear_of_forall {p : Text} (h : ∀ c ∈ p, c ≠ '\r'.toUInt8) : EndsClear p :=
  fun hl => h _ (List.mem_of_getLast? hl) rfl

theorem endsClear_blanks {p : Text} (h : Blanks p) : EndsClear p :=
  endsClear_of_forall fun c hc => Byte.ne_of_holds (h c hc) (by decide)

theorem endsClear_word {p : Text} (h : ∀ c ∈ p, Byte.isWord c) : EndsClear p :=
  endsClear_of_forall fun c hc => Byte.ne_of_holds (h c hc) (by decide)

theorem endsClear_operand {op : Text} (h : Operand.Written op) : EndsClear op := by
  cases h
  case bracketed w _ _ => exact endsClear_snoc ('['.toUInt8 :: w) (by decide)
  case displaced w ds sign _ _ _ _ _ =>
    exact endsClear_snoc ('['.toUInt8 :: (w ++ sign :: ds)) (by decide)
  case quoted q c body h _ => exact endsClear_snoc (q :: c :: body) (Byte.ne_of_holds h (by decide))
  case word c w hc h =>
    have hs : EndsClear [c] := by
      refine endsClear_snoc [] ?_
      cases hc
      case inl hl => exact Byte.ne_of_holds hl (by decide)
      case inr hd => exact Byte.ne_of_holds hd (by decide)
    exact hs.append (endsClear_word h)

theorem endsClear_operands {ops : List Text} {o : Text} (h : OperandsWritten ops o) :
    EndsClear o := by
  cases h
  case none => simp [EndsClear]
  case one hb _ hw => exact (endsClear_blanks hb).append (endsClear_operand hw)
  case two b b₁ b₂ op₁ op₂ hb _ hw₁ hb₁ hb₂ hw₂ =>
    have h₂ := (endsClear_blanks hb₂).append (endsClear_operand hw₂)
    have hc := (endsClear_snoc b₁ (by decide : ','.toUInt8 ≠ _)).append h₂
    have h := (endsClear_blanks hb).append ((endsClear_operand hw₁).append hc)
    simpa using h

theorem endsClear_command {command : Option Command} {c : Text} (h : CommandWritten command c) :
    EndsClear c := by
  cases h
  case none => simp [EndsClear]
  case some hm ho =>
    have hm := endsClear_word fun c hc => Byte.isWord_of_isLetter (hm.right.right c hc)
    exact hm.append (endsClear_operands ho)

theorem endsClear_label {label : Option Text} {l : Text} (h : LabelWritten label l) :
    EndsClear l := by
  cases h
  case none => simp [EndsClear]
  case some name _ => exact endsClear_snoc name (by decide)

-- So a carriage return at the end of a line belongs to its tail.
theorem Written.of_append_return (h : Written (t ++ ['\r'.toUInt8]) line) : Written t line := by
  generalize ht : t ++ ['\r'.toUInt8] = t' at h
  cases h
  case mk b₁ b₂ l c tail label command hb₁ hl hb₂ hc htail =>
    rcases List.eq_nil_or_concat tail with hn | ⟨tail', r, he⟩
    case inl =>
      have hclear := (endsClear_blanks hb₁).append <| (endsClear_label hl).append <|
        (endsClear_blanks hb₂).append (endsClear_command hc)
      rw [hn, List.append_nil] at ht
      exact absurd (by simp [←ht]) hclear
    case inr =>
      rw [List.concat_eq_append] at he
      subst he
      simp only [←List.append_assoc] at ht
      obtain ⟨hfront, hr⟩ := List.append_inj' ht rfl
      cases hr
      subst hfront
      simpa using Written.mk hb₁ hl hb₂ hc htail.of_append_return

theorem read_content (h : read t = .ok line) : read (Source.content t) = .ok line := by
  cases Source.content_cases t
  case inl he => rwa [he]
  case inr he =>
    rw [he] at h
    exact read_of_written (written_of_read h).of_append_return

-- A line that can be read is read the same whatever expressions are worth.
theorem readIn_content (h : read t = .ok line) (value? : Text → Option Int) :
    readIn value? (Source.content t) = .ok line := by
  have hr := read_content h
  simp only [readIn, Expansion.expand_of_read hr, hr]

end Line

namespace Draft

-- The texts that lines turn into, each expanded with the names that the lines above it leave.
def expandLines (asm : Assembler) : Nat → List Text → Draft → Except Error (List Text)
  | _, [], _ => .ok []
  | n, raw :: raws, d =>
    match Expansion.expand (d.value? asm n) (Source.content raw),
        addLine asm n (Source.content raw) d with
    | .ok text, .ok d => (expandLines asm (n + 1) raws d).map (text :: ·)
    | .error e, _ => .error e
    | _, .error e => .error e

variable {asm : Assembler} {d d' : Draft} {n : Nat} {raws texts : List Text} {lines : List Line}

namespace Run

theorem expandLines_eq_ok (r : Run asm n raws lines d d')
    (hn : ∀ raw ∈ raws, '\n'.toUInt8 ∉ raw) :
    ∃ texts, expandLines asm n raws d = .ok texts ∧ texts.map Line.read = lines.map .ok ∧
      ∀ text ∈ texts, '\n'.toUInt8 ∉ text := by
  induction r
  case refl => exact ⟨[], rfl, rfl, by simp⟩
  case step raw _ _ _ _ _ _ s _ hi =>
    have ⟨hraw, hn⟩ := List.forall_mem_cons.mp hn
    have ⟨text, he, hr⟩ := Line.readIn_eq_ok s.reads
    have ⟨texts, hes, hrs, hns⟩ := hi hn
    refine ⟨text :: texts, ?_, by simp [hr, hrs], List.forall_mem_cons.mpr ⟨?_, hns⟩⟩
    case refine_1 => simp only [expandLines, he, s.addLine_eq_ok, hes, Except.map]
    case refine_2 =>
      refine Expansion.newline_not_mem_expand ?_ he
      cases Source.content_cases raw
      case inl hc => rwa [hc]
      case inr hc => exact fun hm => hraw (hc ▸ List.mem_append_left _ hm)

-- Lines that are read as they stand take the same steps, whatever constants are known and whatever
-- expressions are worth.
theorem of_read (r : Run asm n raws lines d d') (hr : texts.map Line.read = lines.map .ok)
    (hs : ∀ t ∈ texts, t.length < Source.lineLimit) (asm' : Assembler) :
    Run asm' n texts lines d d' := by
  induction r generalizing texts
  case refl =>
    cases List.map_eq_nil_iff.mp hr
    exact .refl
  case step s _ hi =>
    have ⟨text, texts', ht, hread, hreads⟩ := List.map_eq_cons_iff.mp hr
    subst ht
    have ⟨hshort, hshorts⟩ := List.forall_mem_cons.mp hs
    exact .step ⟨hshort, Line.readIn_content hread _, s.adds⟩ (hi hreads hshorts)

end Run

-- An empty line adds nothing.
theorem Run.lose_empty (r : Run asm n (raws ++ [[]]) lines d d') :
    ∃ lines', lines = lines' ++ [⟨none, none⟩] ∧ Run asm n raws lines' d d' := by
  have ⟨lines₁, lines₂, d₂, hl, r₁, r₂⟩ := r.split
  cases r₂
  case step line _ d₃ s r₃ =>
    cases r₃
    have hr : Line.read [] = .ok ⟨none, none⟩ := rfl
    cases (Line.readIn_content hr _).symm.trans s.reads
    cases s.adds
    exact ⟨lines₁, hl, r₁⟩

end Draft

namespace Layout

theorem slots_append_empty (lines : List Line) : slots (lines ++ [⟨none, none⟩]) = slots lines := by
  simp [slots, Line.slots, Line.statement?]

theorem program_append_empty (labels : Table Text Int) (lines : List Line) :
    program labels (lines ++ [⟨none, none⟩]) = program labels lines := by
  simp [program, slots_append_empty, extents_append, extents, Line.extent?, mapping_append, mapping,
    Line.mapped?, Line.statement?]

end Layout

namespace Assembler

open Draft (Run)

theorem assemble_of_run {asm : Assembler} {texts lost : List Text} {lines : List Line} {d : Draft}
    {source : Source} (ht : texts = Source.lines source.text ++ lost)
    (hl : lost = [] ∨ lost = [[]]) (r : Run asm 0 texts lines {} d) (hf : source.failure = none)
    (ha : ∀ name ∈ Layout.references lines, Layout.fault? d.labels name = none) :
    asm.assemble source = .ok (Layout.program d.labels lines) := by
  cases hl
  case inl hl =>
    rw [hl, List.append_nil] at ht
    exact assemble_eq_ok_iff.mpr ⟨lines, d, ht ▸ r, hf, ha, rfl⟩
  case inr hl =>
    rw [ht, hl] at r
    have ⟨lines', he, r'⟩ := r.lose_empty
    rw [he, Layout.program_append_empty]
    rw [he, Layout.references, Layout.slots_append_empty] at ha
    exact assemble_eq_ok_iff.mpr ⟨lines', d, r', hf, ha, rfl⟩

-- Assembling the expanded lines gives the same program, under any constants and with any evaluator.
theorem assemble_join_expandLines (asm : Assembler) (source : Source) (p : Program)
    (h : asm.assemble source = .ok p) :
    ∃ texts, Draft.expandLines asm 0 (Source.lines source.text) {} = .ok texts ∧
      ((∀ t ∈ texts, t.length < Source.lineLimit) →
        ∀ asm' : Assembler, asm'.assemble { text := Text.join ['\n'.toUInt8] texts } = .ok p) := by
  have ⟨lines, d, r, _, ha, hp⟩ := assemble_eq_ok_iff.mp h
  have ⟨texts, he, hr, hn⟩ := r.expandLines_eq_ok fun _ hm => Source.newline_not_mem_of_mem_lines hm
  have ⟨lost, ht, hlost⟩ := Source.exists_lines_join hn
  refine ⟨texts, he, fun hs asm' => ?_⟩
  exact hp ▸ assemble_of_run ht hlost (r.of_read hr hs asm') rfl ha

-- Dollar signs in a string and in a comment stay, and a second carriage return does no harm.
theorem assemble_join_expandLines_of_marks :
    let source : Source := { text := Text.ofString ("x: MOV A, $(LINENO + 3) ; $(x\r\r\n" ++
      "DB \"$(1)\"\nJMP $(x)\n\n") }
    ∃ texts p, Draft.expandLines {} 0 (Source.lines source.text) {} = .ok texts ∧
      texts = [Text.ofString "x: MOV A, 3 ; $(x\r", Text.ofString "DB \"$(1)\"",
        Text.ofString "JMP 0", []] ∧
      assemble {} source = .ok p ∧
      ∀ asm : Assembler, asm.assemble { text := Text.join ['\n'.toUInt8] texts } = .ok p := by
  intro source
  have ht : (Draft.expandLines {} 0 (Source.lines source.text) {}).toOption =
      some [Text.ofString "x: MOV A, 3 ; $(x\r", Text.ofString "DB \"$(1)\"",
        Text.ofString "JMP 0", []] := by decide +kernel
  have hp : (assemble {} source).toOption.isSome := by decide +kernel
  cases ha : assemble {} source
  case error => simp [ha, Except.toOption] at hp
  case ok p =>
    obtain ⟨texts, he, h⟩ := assemble_join_expandLines {} source p ha
    simp only [he, Except.toOption, Option.some.injEq] at ht
    exact ⟨texts, p, he, ht, rfl, h (ht ▸ by decide +kernel)⟩

end Assembler

end ByteAsm
