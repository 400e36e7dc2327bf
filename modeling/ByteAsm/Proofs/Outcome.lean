import ByteAsm.Proofs.Linking
import ByteAsm.Proofs.Operands
import ByteAsm.Proofs.Reading

namespace ByteAsm

-- Outcomes can be compared, so that rules about them can be run on a source.
instance decidableEqExcept {ε α : Type} [DecidableEq ε] [DecidableEq α] :
    DecidableEq (Except ε α)
  | .ok a, .ok b => decidable_of_iff (a = b) (by simp)
  | .error a, .error b => decidable_of_iff (a = b) (by simp)
  | .ok _, .error _ => .isFalse nofun
  | .error _, .ok _ => .isFalse nofun

-- The labels that the operands of a line name, from left to right.
def Line.labelOperands (line : Line) : List Text :=
  match line.command with
  | none => []
  | some c => ((Operand.classifyAll c.operands).toOption.getD []).filterMap Operand.label

namespace Draft

-- The first line that does not pass, by its number and the text it is reported with: all lines
-- above it were added, and it is at fault itself or too long to be read.
inductive Rejects (asm : Assembler) : List Text → Nat → Text → Error → Prop
  | fault {above below : List Text} {raw : Text} {lines : List Line} {d : Draft} {e : Error} :
    (Run asm 0 above lines {} d) → raw.length < Source.lineLimit →
    addLine asm above.length (Source.content raw) d = .error e →
    Rejects asm (above ++ raw :: below) above.length (Source.content raw) e
  | tooLong {above below : List Text} {raw : Text} {lines : List Line} {d : Draft} :
    (Run asm 0 above lines {} d) → Source.lineLimit ≤ raw.length →
    Rejects asm (above ++ raw :: below) above.length [] .lineTooLong

end Draft

open Draft (Run Rejects)

inductive Assembler.Outcome (asm : Assembler) (source : Source) : Except Error Program → Prop
  | rejected {i : Nat} {text : Text} {cause : Error} :
    (Rejects asm (Source.lines source.text) i text cause) →
    Outcome asm source (.error (.onLine i text cause))
  | unread {lines : List Line} {d : Draft} {report : Text} :
    (Run asm 0 (Source.lines source.text) lines {} d) → source.failure = some (.fault report) →
    Outcome asm source (.error (.external report))
  | unreadLine {lines : List Line} {d : Draft} {report : Option Text} :
    (Run asm 0 (Source.lines source.text) lines {} d) → source.failure = some (.tooLong report) →
    Outcome asm source (.error (.onLine (Source.lines source.text).length []
      (report.elim .lineTooLong .external)))
  | undefined {lines : List Line} {d : Draft} {before after : List Text} {name : Text} :
    (Run asm 0 (Source.lines source.text) lines {} d) → source.failure = none →
    lines.flatMap Line.labelOperands = before ++ name :: after →
    (∀ name ∈ before, Layout.InReach d.labels name) → d.labels.find? name = none →
    Outcome asm source (.error (.undefinedLabel name))
  | range {lines : List Line} {d : Draft} {before after : List Text} {name : Text} {offset : Int} :
    (Run asm 0 (Source.lines source.text) lines {} d) → source.failure = none →
    lines.flatMap Line.labelOperands = before ++ name :: after →
    (∀ name ∈ before, Layout.InReach d.labels name) → d.labels.find? name = some offset →
    255 < offset → Outcome asm source (.error (.labelRange name))
  | program {lines : List Line} {d : Draft} :
    (Run asm 0 (Source.lines source.text) lines {} d) → source.failure = none →
    (∀ name ∈ lines.flatMap Line.labelOperands, Layout.InReach d.labels name) →
    Outcome asm source (.ok (Layout.program d.labels lines))

theorem Operand.label?_slot (op : Operand) : op.slot.label? = op.label := by
  unfold slot
  cases op.label <;> rfl

-- The places for labels in the code of a command are those of its operands.
theorem Command.Fits.label_slots {c : Command} {s : Statement} (h : c.Fits s) :
    s.slots.filterMap Slot.label? =
      ((Operand.classifyAll c.operands).toOption.getD []).filterMap Operand.label := by
  cases h
  case data m raw op hd hc hk =>
    have ha : Operand.classifyAll [raw] = .ok [op] := by simp [Operand.classifyAll, hc]
    cases hk
    case inl hk =>
      simp [ha, Except.toOption, Statement.slots, hk, List.filterMap, Operand.label?_slot]
    case inr hk =>
      have hl : op.label = none := by
        cases hl : op.label
        case none => rfl
        case some name => exact absurd hk (Operand.kind_of_label hc hl)
      simp [ha, Except.toOption, Statement.slots, hk, hl, Function.comp_def, Slot.label?]
  case instruction m raws ops enc hd hc hn he =>
    have ha := Operand.classifyAll_eq_ok_iff.mpr hc
    have hs : (ops.map Operand.slot).filterMap Slot.label? = ops.filterMap Operand.label := by
      rw [List.filterMap_map]
      exact congrArg (ops.filterMap ·) (funext Operand.label?_slot)
    simp only [ha, Except.toOption, Option.getD_some, Statement.slots]
    rw [List.filterMap_cons_none rfl, hs]

namespace Draft

variable {asm : Assembler} {d d' : Draft} {n : Nat} {raws below : List Text} {lines : List Line}
  {e : Error}

theorem Run.references_eq (r : Run asm n raws lines d d') :
    Layout.references lines = lines.flatMap Line.labelOperands := by
  rw [Layout.references, Layout.slots, List.filterMap_flatMap, List.flatMap_def, List.flatMap_def]
  congr 1
  refine List.map_congr_left fun line hl => ?_
  unfold Line.labelOperands
  cases hc : line.command
  case none => simp [Line.slots_of_no_command hc]
  case some c =>
    obtain ⟨s, hs, hf⟩ := r.fits line hl c hc
    rw [Line.slots_of_statement hc hs, hf.label_slots]

theorem Run.addLines_append (r : Run asm n raws lines d d') (below : List Text) :
    addLines asm n (raws ++ below) d = addLines asm (n + raws.length) below d' := by
  induction r
  case refl => rfl
  case step n raw line d₁ d₂ raws lines d₃ s _ hi =>
    simp only [List.cons_append, addLines, if_neg (Nat.not_le_of_lt s.short), s.addLine_eq_ok, hi,
      List.length_cons]
    rw [Nat.add_assoc, Nat.add_comm 1]

theorem Rejects.addLines_eq {i : Nat} {text : Text} :
    (Rejects asm raws i text e) → addLines asm 0 raws {} = .error (.onLine i text e)
  | fault r hs ha   => by
    simp only [r.addLines_append, Nat.zero_add, addLines, if_neg (Nat.not_le_of_lt hs), ha]
  | tooLong r hl => by
    simp only [r.addLines_append, Nat.zero_add, addLines, if_pos hl]

-- The lines above the one at fault are collected while the pass goes on.
theorem Run.rejects_of_error {above : List Text} (r : Run asm 0 above lines {} d)
    (h : addLines asm above.length raws d = .error e) :
    ∃ (i : Nat) (text : Text) (cause : Error),
      e = .onLine i text cause ∧ Rejects asm (above ++ raws) i text cause := by
  induction raws generalizing above lines d
  case nil => contradiction
  case cons raw raws hi =>
    simp only [addLines] at h
    split at h
    case isTrue hl =>
      cases h
      exact ⟨_, _, _, rfl, .tooLong r hl⟩
    case isFalse hs =>
      have hs := Nat.lt_of_not_le hs
      split at h
      case h_1 d' ha =>
        obtain ⟨line, s⟩ := Step.of_addLine_eq_ok hs ha
        have r' := r.snoc (s := by simpa using s)
        obtain ⟨i, text, cause, he, hr⟩ := hi r' (by simpa using h)
        exact ⟨i, text, cause, he, by simpa using hr⟩
      case h_2 cause ha =>
        cases h
        exact ⟨_, _, _, rfl, .fault r hs ha⟩

end Draft

namespace Assembler

variable {asm : Assembler} {source source' : Source} {r : Except Error Program}

theorem assemble_of_fault {lines : List Line} {d : Draft} {before after : List Text} {name : Text}
    {e : Error} (hr : Run asm 0 (Source.lines source.text) lines {} d) (hf : source.failure = none)
    (hl : lines.flatMap Line.labelOperands = before ++ name :: after)
    (hb : ∀ name ∈ before, Layout.InReach d.labels name)
    (he : Layout.fault? d.labels name = some e) : asm.assemble source = .error e := by
  have hs : (Layout.references lines).findSome? (Layout.fault? d.labels) = some e := by
    rw [hr.references_eq]
    refine List.findSome?_eq_some_iff.mpr ⟨before, name, after, hl, he, fun name hm => ?_⟩
    exact Layout.fault?_eq_none_iff.mpr (hb name hm)
  simp only [assemble, hr.addLines_eq_ok, hf, hr.link_eq, hs]

theorem assemble_of_outcome : (Outcome asm source r) → asm.assemble source = r
  | .rejected hr => by simp only [assemble, hr.addLines_eq]
  | .unread hr hf | .unreadLine hr hf => by
    simp only [assemble, hr.addLines_eq_ok, hf, Source.Failure.error]
  | .undefined hr hf hl hb hn => assemble_of_fault hr hf hl hb (by simp [Layout.fault?, hn])
  | .range hr hf hl hb ho hlt =>
    assemble_of_fault hr hf hl hb (by simp [Layout.fault?, ho, Int.not_le_of_gt hlt])
  | .program hr hf ha => by
    refine assemble_eq_ok_iff.mpr ⟨_, _, hr, hf, fun name hm => ?_, rfl⟩
    rw [hr.references_eq] at hm
    exact Layout.fault?_eq_none_iff.mpr (ha name hm)

theorem Outcome.rejects {i : Nat} {text : Text} {cause : Error} (hf : source.failure = none)
    (h : Outcome asm source (.error (.onLine i text cause))) :
    Rejects asm (Source.lines source.text) i text cause := by
  generalize hr : Except.error (Error.onLine i text cause) = r at h
  cases h <;>
    simp only [Except.error.injEq, Error.onLine.injEq, Int.natCast_inj, reduceCtorEq] at hr
  case unreadLine hf' => simp [hf] at hf'
  case rejected hj =>
    have ⟨hi, ht, hc⟩ := hr
    subst hi ht hc
    exact hj

end Assembler

end ByteAsm
