import Mathlib.Data.List.Forall2
import ByteAsm.Proofs.FirstPass
import ByteAsm.Proofs.SourceLines

namespace ByteAsm

-- Results that belong together, or errors that do.
inductive Alike {α β : Type} (E : Error → Error → Prop) (R : α → β → Prop) :
    Except Error α → Except Error β → Prop
  | ok {a : α} {b : β} : R a b → Alike E R (.ok a) (.ok b)
  | error {e e' : Error} : E e e' → Alike E R (.error e) (.error e')

section

variable {α β α' β' : Type} {E : Error → Error → Prop} {R : α → β → Prop} {S : α' → β' → Prop}
  {x : Except Error α} {y : Except Error β}

theorem Alike.bind {f : α → Except Error α'} {g : β → Except Error β'} (h : Alike E R x y)
    (hf : ∀ a b, R a b → Alike E S (f a) (g b)) : Alike E S (x >>= f) (y >>= g) := by
  cases h
  case ok hr => exact hf _ _ hr
  case error he => exact .error he

theorem Alike.map {f : α → α'} {g : β → β'} (h : Alike E R x y)
    (hf : ∀ a b, R a b → S (f a) (g b)) : Alike E S (x.map f) (y.map g) := by
  cases h
  case ok hr => exact .ok (hf _ _ hr)
  case error he => exact .error he

theorem Alike.imp {R' : α → β → Prop} (h : Alike E R x y) (hr : ∀ a b, R a b → R' a b) :
    Alike E R' x y := by
  cases h
  case ok h => exact .ok (hr _ _ h)
  case error he => exact .error he

theorem Alike.mapError {E' : Error → Error → Prop} {f g : Error → Error} (h : Alike E R x y)
    (hf : ∀ e e', E e e' → E' (f e) (g e')) : Alike E' R (x.mapError f) (y.mapError g) := by
  cases h
  case ok hr => exact .ok hr
  case error he => exact .error (hf _ _ he)

theorem Alike.of_eq_map {f : α → β} (h : y = x.map f) : Alike Eq (fun a b => b = f a) x y := by
  subst h
  cases x
  case ok => exact .ok rfl
  case error => exact .error rfl

theorem Alike.of_ok {a : α} (h : Alike E R (.ok a) y) : ∃ b, y = .ok b ∧ R a b := by
  cases h
  case ok b hr => exact ⟨b, rfl, hr⟩

theorem Alike.of_error {e : Error} (h : Alike E R (.error e) y) :
    ∃ e', y = .error e' ∧ E e e' := by
  cases h
  case error e' he => exact ⟨e', rfl, he⟩

end

namespace Expansion

theorem hasMark_append_left {t : Text} (h : hasMark t) (rest : Text) : hasMark (t ++ rest) := by
  induction t
  case nil => contradiction
  case cons c t hi =>
    simp only [hasMark, Bool.or_eq_true, Bool.and_eq_true] at h
    simp only [List.cons_append, hasMark, Bool.or_eq_true, Bool.and_eq_true]
    cases h
    case inr h => exact .inr (hi h)
    case inl h =>
      cases t
      case nil => simp at h
      case cons => exact .inl h

theorem hasMark_append_right {t : Text} (h : hasMark t) (front : Text) : hasMark (front ++ t) := by
  induction front
  case nil => exact h
  case cons c front hi => simp [hasMark, hi]

theorem hasMark_of_infix {s t : Text} (hs : s <:+: t) (h : hasMark s) : hasMark t := by
  have ⟨front, rest, he⟩ := hs
  exact he ▸ hasMark_append_left (hasMark_append_right h front) rest

end Expansion

namespace Source

theorem infix_of_mem_go {line t cut : Text} {done : List Text} (h : cut ∈ lines.go line done t) :
    cut ∈ done ∨ cut <:+: line.reverse ++ t := by
  induction t generalizing line done
  case nil =>
    cases line
    case nil => exact .inl (List.mem_reverse.mp h)
    case cons c line =>
      cases List.mem_cons.mp (List.mem_reverse.mp h)
      case inl he => exact .inr (he ▸ List.append_nil _ ▸ List.infix_rfl)
      case inr hm => exact .inl hm
  case cons c t hi =>
    simp only [lines.go] at h
    split at h
    case isTrue =>
      rcases hi h with hm | hs
      case inl =>
        cases List.mem_cons.mp hm
        case inl he => exact .inr (he ▸ (List.prefix_append ..).isInfix)
        case inr hm => exact .inl hm
      case inr =>
        refine .inr (hs.trans (List.IsSuffix.isInfix ⟨line.reverse ++ [c], ?_⟩))
        simp
    case isFalse =>
      have h := hi h
      rwa [List.reverse_cons, List.append_assoc] at h

theorem content_isPrefix (raw : Text) : content raw <+: raw := by
  cases content_cases raw
  case inl he => exact ⟨[], by rw [he, List.append_nil]⟩
  case inr he => exact ⟨_, he.symm⟩

-- A mark does not reach over the end of a line.
theorem not_hasMark_content {t raw : Text} (ht : ¬Expansion.hasMark t) (h : raw ∈ lines t) :
    ¬Expansion.hasMark (content raw) := by
  have hr : raw <:+: t := (infix_of_mem_go h).resolve_left List.not_mem_nil
  exact mt (Expansion.hasMark_of_infix ((content_isPrefix raw).isInfix.trans hr)) ht

end Source

theorem Line.read_eq_error {t : Text} {e : Error} (h : read t = .error e) : e = .malformed := by
  simp only [read] at h
  split at h <;> cases h
  rfl

theorem Line.readIn_of_not_hasMark {t : Text} (h : ¬Expansion.hasMark t)
    (value? : Text → Option Int) : readIn value? t = read t := by
  simp only [readIn, Expansion.expand, if_neg h]

variable {asm asm' : Assembler} {E : Error → Error → Prop} {R : Draft → Draft → Prop}

namespace Draft

-- What the first pass does with a line as it is cut off the source.
def addRaw (asm : Assembler) (n : Nat) (raw : Text) (d : Draft) : Except Error Draft :=
  if Source.lineLimit ≤ raw.length then .error (.onLine n [] .lineTooLong)
  else (addLine asm n (Source.content raw) d).mapError (.onLine n (Source.content raw))

theorem add_eq_bind (d : Draft) (n : Nat) (line : Line) :
    d.add n line = d.defineAny line.label >>= fun d => d.placeAny n line.command := by
  unfold add
  cases d.defineAny line.label <;> rfl

-- A line without expressions is read first and then added.
theorem addRaw_of_not_hasMark {raw : Text} (h : ¬Expansion.hasMark (Source.content raw))
    (asm : Assembler) (n : Nat) (d : Draft) : addRaw asm n raw d =
      if Source.lineLimit ≤ raw.length then .error (.onLine n [] .lineTooLong)
      else (Line.read (Source.content raw) >>= d.add n).mapError
        (.onLine n (Source.content raw)) := by
  rw [addRaw, addLine_eq, Line.readIn_of_not_hasMark h]
  cases Line.read (Source.content raw) <;> rfl

theorem addLines_cons (asm : Assembler) (n : Nat) (raw : Text) (raws : List Text) (d : Draft) :
    addLines asm n (raw :: raws) d = addRaw asm n raw d >>= addLines asm (n + 1) raws := by
  simp only [addLines, addRaw]
  split
  case isTrue => rfl
  case isFalse => cases addLine asm n (Source.content raw) d <;> rfl

theorem addLines_append (asm : Assembler) (n : Nat) (above below : List Text) (d : Draft) :
    addLines asm n (above ++ below) d =
      addLines asm n above d >>= addLines asm (n + above.length) below := by
  induction above generalizing n d
  case nil => rfl
  case cons raw above hi =>
    rw [List.cons_append, addLines_cons, addLines_cons]
    cases addRaw asm n raw d
    case error => rfl
    case ok d =>
      rw [List.length_cons, Nat.add_comm above.length, ←Nat.add_assoc]
      exact hi ..

-- From line `least` on, the numbers of the lines on the right are larger by `shift`.
theorem addLines_alike (least shift : Nat) {d d' : Draft} {n : Nat} {raws raws' : List Text}
    (h : List.Forall₂ (fun raw raw' => ∀ n d d', least ≤ n → R d d' →
      Alike E R (addRaw asm n raw d) (addRaw asm' (n + shift) raw' d')) raws raws')
    (hn : least ≤ n) (hd : R d d') :
    Alike E R (addLines asm n raws d) (addLines asm' (n + shift) raws' d') := by
  induction h generalizing n d d'
  case nil => exact .ok hd
  case cons hline _ hi =>
    rw [addLines_cons, addLines_cons]
    refine (hline n d d' hn hd).bind fun d d' hd => ?_
    rw [Nat.add_right_comm]
    exact hi (Nat.le_succ_of_le hn) hd

theorem patch_cons (labels : Table Text Int) (rel : Relocation) (relocations : List Relocation)
    (code : Array UInt8) : patch labels (rel :: relocations) code =
      resolve labels rel.label >>= fun b =>
        patch labels relocations (code.setIfInBounds rel.ip b) := by
  rw [patch]
  cases resolve labels rel.label <;> rfl

-- The errors of the second pass are about labels and belong to no line.
theorem patch_eq_error {labels : Table Text Int} {relocations : List Relocation}
    {code : Array UInt8} {e : Error} (h : patch labels relocations code = .error e) :
    ∃ name, e = .undefinedLabel name ∨ e = .labelRange name := by
  induction relocations generalizing code
  case nil => contradiction
  case cons relocation relocations hi =>
    rw [patch] at h
    split at h
    case h_1 => exact hi h
    case h_2 he =>
      cases h
      unfold resolve at he
      split at he
      case h_1 =>
        cases he
        exact ⟨_, .inl rfl⟩
      case h_2 =>
        split at he <;> cases he
        exact ⟨_, .inr rfl⟩

theorem link_eq_error {d : Draft} {e : Error} (h : d.link = .error e) :
    ∃ name, e = .undefinedLabel name ∨ e = .labelRange name := by
  unfold link at h
  cases hp : patch d.labels d.relocations.toList d.code
  case ok => simp [hp, Except.map] at h
  case error =>
    rw [hp] at h
    cases h
    exact patch_eq_error hp

end Draft

namespace Assembler

theorem assemble_eq_bind (asm : Assembler) (source : Source) :
    asm.assemble source = Draft.addLines asm 0 (Source.lines source.text) {} >>= fun d =>
      match source.failure with
      | some failure => .error (failure.error (Source.lines source.text).length)
      | none => d.link := by
  unfold assemble
  cases Draft.addLines asm 0 (Source.lines source.text) {} <;> rfl

theorem assemble_alike {source source' : Source} {S : Program → Program → Prop}
    (h : Alike E R (Draft.addLines asm 0 (Source.lines source.text) {})
      (Draft.addLines asm' 0 (Source.lines source'.text) {}))
    (hf : source'.failure = source.failure)
    (he : ∀ failure : Source.Failure, E (failure.error (Source.lines source.text).length)
      (failure.error (Source.lines source'.text).length))
    (hl : ∀ d d', R d d' → Alike E S d.link d'.link) :
    Alike E S (asm.assemble source) (asm'.assemble source') := by
  rw [assemble_eq_bind, assemble_eq_bind, hf]
  refine h.bind fun d d' hd => ?_
  cases source.failure
  case none => exact hl d d' hd
  case some failure => exact .error (he failure)

end Assembler

end ByteAsm
