import ByteAsm.Proofs.Expanded
import ByteAsm.Proofs.Faults
import ByteAsm.Proofs.Operands
import ByteAsm.Proofs.Outcome
import ByteAsm.Proofs.SideBySide
import ByteAsm.Proofs.Table

namespace ByteAsm

namespace Abstract.Referable

instance decidable (name : Text) : Decidable (Referable name) :=
  decidable_of_iff _ Operand.referable_iff.symm

variable {x y : Text}

theorem upper_eq (h : Referable x) : x.upper = x.map Byte.upper :=
  Text.upper_of_isAscii (Word.isAscii_of_isLabel h.spelled)

-- Whether a name may be referred to does not depend on its case.
theorem iff_map_upper : Referable x ↔
    Word.isLabel (x.map Byte.upper) ∧ ∀ r : Register, x.map Byte.upper ≠ r.name := by
  rw [Word.isLabel_map_upper]
  exact ⟨fun h => ⟨h.spelled, h.free⟩, fun ⟨hs, hf⟩ => ⟨hs, hf⟩⟩

theorem iff_of_upper (hx : Word.isLabel x) (hy : Word.isLabel y) (hu : x.upper = y.upper) :
    Referable x ↔ Referable y := by
  rw [Text.upper_of_isAscii (Word.isAscii_of_isLabel hx),
    Text.upper_of_isAscii (Word.isAscii_of_isLabel hy)] at hu
  rw [iff_map_upper, hu, ←iff_map_upper]

theorem not_reserved (h : Referable x) : x.upper ∉ Draft.reserved := by
  have hr : ∀ name ∈ Draft.reserved, ∃ r : Register, name = r.name := by
    simp only [Draft.reserved, List.forall_mem_cons]
    exact ⟨⟨.a, rfl⟩, ⟨.b, rfl⟩, ⟨.c, rfl⟩, ⟨.d, rfl⟩, nofun⟩
  intro hm
  have ⟨r, hr⟩ := hr _ hm
  exact h.free r (h.upper_eq ▸ hr)

end Abstract.Referable

open Abstract (Referable)

-- Other names for labels, which differ in more than case where the names before did.
structure Renaming where
  map       : Text → Text
  referable : ∀ x, Referable x → Referable (map x)
  injective : ∀ x y, Referable x → Referable y → map x = map y → x = y
  upper     : ∀ x y, Referable x → Referable y →
    ((map x).upper = (map y).upper ↔ x.upper = y.upper)

namespace Renaming

variable (r : Renaming)

-- Labels that no operand can refer to keep their names.
def label (name : Text) : Text :=
  if Referable name then r.map name else name

-- An operand that is a label, in brackets or not, is renamed.
def operand (raw : Text) : Text :=
  match raw with
  | [] => []
  | c :: rest =>
    if c == '['.toUInt8 then
      match Text.dropEnd? ']'.toUInt8 rest with
      | some name => c :: (r.label name ++ [']'.toUInt8])
      | none => raw
    else r.label raw

def words : List Text → List Text
  | [] => []
  | mnemonic :: operands => mnemonic :: operands.map r.operand

def command (c : Command) : Command :=
  { c with operands := c.operands.map r.operand }

def line (l : Line) : Line where
  label   := l.label.map r.label
  command := l.command.map r.command

def record (rec : Record) : Record :=
  { rec with words := r.words rec.words }

def extent (e : Extent) : Extent :=
  { e with words := r.words e.words }

def op (op : Operand) : Operand :=
  { op with label := op.label.map r.label }

def statement : Statement → Statement
  | .data op => .data (r.op op)
  | .instruction enc ops => .instruction enc (ops.map r.op)

def slot : Slot → Slot
  | .byte b => .byte b
  | .label name => .label (r.label name)

def relocation (rel : Relocation) : Relocation :=
  { rel with label := r.label rel.label }

def error : Error → Error
  | .duplicateLabel name => .duplicateLabel (r.label name)
  | .undefinedLabel name => .undefinedLabel (r.label name)
  | .labelRange name => .labelRange (r.label name)
  | e => e

-- An error and what is reported in its place. The text of a line at fault is that of the new line.
def Reports : Error → Error → Prop
  | .onLine n _ cause, e' => ∃ text, e' = .onLine n text (r.error cause)
  | e, e' => e' = r.error e

-- Lines that are read as the same parts, with other names for labels.
def Rewrites (raw raw' : Text) : Prop :=
  Line.read (Source.content raw') = (Line.read (Source.content raw)).map r.line

instance (raw raw' : Text) : Decidable (r.Rewrites raw raw') :=
  inferInstanceAs (Decidable (_ = _))

variable {r} {x y : Text}

theorem label_of_referable (h : Referable x) : r.label x = r.map x :=
  if_pos h

theorem label_of_not_referable (h : ¬Referable x) : r.label x = x :=
  if_neg h

theorem referable_label : Referable (r.label x) ↔ Referable x := by
  by_cases h : Referable x
  case pos => simp only [label_of_referable h, h, r.referable x h]
  case neg => rw [label_of_not_referable h]

theorem label_injective : Function.Injective r.label := by
  intro x y he
  have hr : Referable x ↔ Referable y := by rw [←referable_label (r := r), he, referable_label]
  by_cases hx : Referable x
  case pos =>
    rw [label_of_referable hx, label_of_referable (hr.mp hx)] at he
    exact r.injective x y hx (hr.mp hx) he
  case neg => rwa [label_of_not_referable hx, label_of_not_referable (mt hr.mpr hx)] at he

theorem isLabel_label (h : Word.isLabel x) : Word.isLabel (r.label x) := by
  by_cases hx : Referable x
  case pos => exact (referable_label.mpr hx).spelled
  case neg => rwa [label_of_not_referable hx]

theorem upper_label (hx : Word.isLabel x) (hy : Word.isLabel y) :
    (r.label x).upper = (r.label y).upper ↔ x.upper = y.upper := by
  by_cases hr : Referable x ↔ Referable y
  case neg =>
    have hl : ¬(Referable (r.label x) ↔ Referable (r.label y)) := by
      rwa [referable_label, referable_label]
    exact iff_of_false (mt (Referable.iff_of_upper (isLabel_label hx) (isLabel_label hy)) hl)
      (mt (Referable.iff_of_upper hx hy) hr)
  case pos =>
    by_cases hx : Referable x
    case neg => rw [label_of_not_referable hx, label_of_not_referable (mt hr.mpr hx)]
    case pos =>
      have hy := hr.mp hx
      rw [label_of_referable hx, label_of_referable hy]
      exact r.upper x y hx hy

theorem label_of_reserved (h : x.upper ∈ Draft.reserved) : r.label x = x :=
  label_of_not_referable fun hr => hr.not_reserved h

theorem reserved_label : (r.label x).upper ∈ Draft.reserved ↔ x.upper ∈ Draft.reserved := by
  by_cases hx : Referable x
  case pos => exact iff_of_false (referable_label.mpr hx).not_reserved hx.not_reserved
  case neg => rw [label_of_not_referable hx]

-- What is no name that can be referred to is not classified as a label.
theorem map_op_of_not_referable {w : Text} {z : Except Error Operand} (hw : ¬Referable w)
    (h : ∀ op, z = .ok op → ∀ name ∈ op.label, name = w ∧ Referable name) : z.map r.op = z := by
  cases z
  case error => rfl
  case ok op =>
    obtain ⟨kind, value, label, values⟩ := op
    cases label
    case none => rfl
    case some =>
      have ⟨he, hr⟩ := h _ rfl _ rfl
      exact absurd (he ▸ hr) hw

theorem ofWord_label (w : Text) : Operand.ofWord (r.label w) = (Operand.ofWord w).map r.op := by
  by_cases hw : Referable w
  case pos =>
    rw [Operand.ofWord, Operand.ofWord, hw.ofWord?_eq_none, hw.spelled,
      (referable_label.mpr hw).ofWord?_eq_none, (referable_label.mpr hw).spelled]
    rfl
  case neg =>
    rw [label_of_not_referable hw]
    exact (map_op_of_not_referable hw fun _ h => (Operand.ofWord_eq_ok h).right).symm

theorem ofAddress_label (w : Text) :
    Operand.ofAddress (r.label w) = (Operand.ofAddress w).map r.op := by
  by_cases hw : Referable w
  case pos =>
    rw [Operand.ofAddress, Operand.ofAddress, hw.ofWord?_eq_none, hw.spelled,
      (referable_label.mpr hw).ofWord?_eq_none, (referable_label.mpr hw).spelled]
    rfl
  case neg =>
    rw [label_of_not_referable hw]
    exact (map_op_of_not_referable hw fun _ h => (Operand.ofAddress_eq_ok h).right).symm

theorem classify_of_referable {w : Text} (h : Referable w) :
    Operand.classify w = Operand.ofWord w := by
  have hs := h.spelled
  cases w
  case nil => contradiction
  case cons c rest =>
    simp only [Word.isLabel, Bool.and_eq_true] at hs
    exact Operand.classify_word rest (by simp [hs.left])

theorem label_nil : r.label [] = [] :=
  label_of_not_referable fun h => by simpa [Word.isLabel] using h.spelled

theorem label_ne_nil (h : x ≠ []) : r.label x ≠ [] :=
  fun he => h (label_injective (he.trans label_nil.symm))

theorem classify_operand (raw : Text) :
    Operand.classify (r.operand raw) = (Operand.classify raw).map r.op := by
  unfold operand
  split
  case h_1 => rfl
  case h_2 c rest =>
    split
    case isTrue hc =>
      cases eq_of_beq hc
      split
      case h_1 name hd =>
        rw [Text.eq_of_dropEnd? hd]
        by_cases hn : name = []
        case pos =>
          rw [hn, label_nil]
          rfl
        case neg =>
          rw [Operand.classify_bracketed hn, Operand.classify_bracketed (label_ne_nil hn),
            ofAddress_label]
      case h_2 hd =>
        simp only [Operand.classify, beq_self_eq_true, if_true, Operand.inside, hd]
        rfl
    case isFalse hc =>
      by_cases hw : Referable (c :: rest)
      case pos =>
        rw [classify_of_referable hw, classify_of_referable (referable_label.mpr hw), ofWord_label]
      case neg =>
        rw [label_of_not_referable hw]
        refine (map_op_of_not_referable hw fun op h name hl => ?_).symm
        obtain ⟨hr, he⟩ := Operand.label_classify h hl
        have hb : c :: rest ≠ '['.toUInt8 :: (name ++ [']'.toUInt8]) :=
          fun he => hc (beq_iff_eq.mpr (List.cons.inj he).left)
        exact ⟨(he.resolve_right hb).symm, hr⟩

theorem classifyAll_operands (raws : List Text) :
    Operand.classifyAll (raws.map r.operand) = (Operand.classifyAll raws).map (List.map r.op) := by
  induction raws
  case nil => rfl
  case cons raw raws hi =>
    simp only [List.map_cons, Operand.classifyAll, classify_operand, hi]
    cases Operand.classify raw
    case error => rfl
    case ok op => cases Operand.classifyAll raws <;> rfl

theorem ofData_ops (ops : List Operand) :
    Statement.ofData (ops.map r.op) = (Statement.ofData ops).map r.statement := by
  cases ops
  case nil => rfl
  case cons op ops =>
    cases ops
    case cons => rfl
    case nil =>
      simp only [Statement.ofData, List.map_cons, List.map_nil, apply_ite (Except.map r.statement)]
      rfl

theorem kindAt_ops (ops : List Operand) (n : Nat) :
    Operand.kindAt (ops.map r.op) n = Operand.kindAt ops n := by
  simp only [Operand.kindAt, List.getD_eq_getElem?_getD, List.getElem?_map]
  cases ops[n]? <;> rfl

theorem ofOperands_ops (m : Text) (ops : List Operand) :
    Statement.ofOperands m (ops.map r.op) = (Statement.ofOperands m ops).map r.statement := by
  rw [Statement.ofOperands_eq, Statement.ofOperands_eq, kindAt_ops, kindAt_ops]
  cases InstructionSet.select m (Operand.kindAt ops 0) (Operand.kindAt ops 1) <;> rfl

theorem statement_command (c : Command) :
    (r.command c).statement = c.statement.map r.statement := by
  simp only [Command.statement, command, List.length_map, ←List.map_take, classifyAll_operands]
  cases InstructionSet.arity? c.mnemonic <;> dsimp only
  case none => rfl
  case some n =>
    cases Operand.classifyAll (c.operands.take n) <;> dsimp only [Except.map]
    case ok ops =>
      simp only [ofData_ops, ofOperands_ops]
      split
      case isTrue => rfl
      case isFalse => split <;> rfl

section

variable (r)

-- The draft with new names. The table of spellings in upper case is another one.
def draft (normalized : Table Text Text) (d : Draft) : Draft where
  code        := d.code
  relocations := d.relocations.map r.relocation
  mapping     := d.mapping
  labels      := d.labels.mapKeys r.label label_injective
  normalized  := normalized
  extents     := d.extents.map r.extent

-- A label is new to one draft exactly if its new name is new to the other one.
structure Renamed (d d' : Draft) : Prop where
  draft    : d' = r.draft d'.normalized d
  fresh    : ∀ name, Word.isLabel name →
    (d'.normalized.find? (r.label name).upper = none ↔ d.normalized.find? name.upper = none)
  coherent : d.Coherent

def program (p : Program) : Program where
  code    := p.code
  mapping := p.mapping
  labels  := p.labels.mapKeys r.label label_injective
  records := p.records.map r.record

-- What the first pass makes of a line, up to the new names.
abbrev Follows : Except Error Draft → Except Error Draft → Prop :=
  Alike (fun e e' => e' = r.error e) r.Renamed

end

variable {d d' : Draft} {n : Nat}

theorem Renamed.empty : r.Renamed {} {} where
  draft    := by
    have hl : (∅ : Table Text Int).mapKeys r.label label_injective = ∅ := rfl
    simp only [Renaming.draft, hl, Array.map_empty]
  fresh    := fun _ _ => Iff.rfl
  coherent := .empty

theorem slot_op (op : Operand) : (r.op op).slot = r.slot op.slot := by
  unfold Operand.slot Renaming.op
  cases op.label <;> rfl

theorem slots_statement (s : Statement) : (r.statement s).slots = s.slots.map r.slot := by
  cases s
  case data op =>
    have hk : (r.op op).kind = op.kind := rfl
    have hv : (r.op op).values = op.values := rfl
    simp only [statement, Statement.slots, hk, hv]
    split
    case h_1 => rw [List.map_map]; rfl
    case h_2 => rw [slot_op]; rfl
  case instruction enc ops =>
    simp [statement, Statement.slots, slot, slot_op]

theorem isData_statement (s : Statement) : (r.statement s).isData = s.isData := by
  cases s <;> rfl

theorem emit_slot (t : Table Text Text) (d : Draft) (s : Slot) :
    (r.draft t d).emit (r.slot s) = r.draft t (d.emit s) := by
  cases s
  case byte => rfl
  case label => simp [Draft.emit, draft, slot, relocation]

theorem foldl_emit_slots (t : Table Text Text) (slots : List Slot) (d : Draft) :
    (slots.map r.slot).foldl Draft.emit (r.draft t d) = r.draft t (slots.foldl Draft.emit d) := by
  induction slots generalizing d
  case nil => rfl
  case cons slot slots hi => rw [List.map_cons, List.foldl_cons, List.foldl_cons, emit_slot, hi]

theorem place_statement (t : Table Text Text) (d : Draft) (n : Nat) (words : List Text)
    (s : Statement) :
    (r.draft t d).place n (r.words words) (r.statement s) = r.draft t (d.place n words s) := by
  rw [Draft.place, Draft.place, ←foldl_emit_slots, slots_statement, isData_statement]
  simp [draft, extent]

theorem Renamed.place (h : r.Renamed d d') (n : Nat) (words : List Text) (s : Statement) :
    r.Renamed (d.place n words s) (d'.place n (r.words words) (r.statement s)) := by
  have ⟨hd, hf, hc⟩ := h
  have hn (d : Draft) (words : List Text) (s : Statement) :
      (d.place n words s).normalized = d.normalized := by
    rw [Draft.place_eq]
  refine ⟨?_, by simpa only [hn] using hf, hc.place n words s⟩
  rw [hn, ←place_statement, ←hd]

-- The new table of spellings in upper case holds the new names of what the other one holds.
theorem Renamed.insert {name : Text} (h : r.Renamed d d') (hl : Word.isLabel name)
    (hn : d.normalized.find? name.upper = none) :
    r.Renamed
      { d with
        normalized := d.normalized.insert name.upper name
        labels     := d.labels.insert name d.code.size }
      { d' with
        normalized := d'.normalized.insert (r.label name).upper (r.label name)
        labels     := d'.labels.insert (r.label name) d'.code.size } := by
  have hnew := h.coherent.not_mem_labels hn
  refine ⟨?_, fun x hx => ?_, h.coherent.insert hn⟩
  case refine_1 =>
    generalize d'.normalized.insert (r.label name).upper (r.label name) = t
    rw [h.draft]
    simp only [Renaming.draft, Table.mapKeys_insert label_injective hnew]
  case refine_2 =>
    simp only [Table.find?_insert, upper_label hx hl]
    split
    case isTrue => simp
    case isFalse => exact h.fresh x hx

theorem Renamed.define {name : Text} (h : r.Renamed d d') (hl : Word.isLabel name) :
    r.Follows (d.define name) (d'.define (r.label name)) := by
  by_cases hf : d.normalized.find? name.upper = none
  case neg =>
    have hf' := mt (h.fresh name hl).mp hf
    rw [Draft.define, Draft.define, if_pos (Option.isSome_iff_ne_none.mpr hf),
      if_pos (Option.isSome_iff_ne_none.mpr hf')]
    exact .error rfl
  case pos =>
    have hf' := (h.fresh name hl).mpr hf
    simp only [Draft.define, hf, hf', List.contains_iff_mem, reserved_label, Option.isSome_none,
      Bool.false_eq_true, if_false]
    split
    case isTrue hr => exact .error (by rw [label_of_reserved hr]; rfl)
    case isFalse => exact .ok (h.insert hl hf)

theorem error_of_fault {e : Error} (h : Command.Fault e) : r.error e = e := by
  cases h
  case operand h => cases h <;> rfl
  all_goals rfl

theorem Renamed.placeAny (h : r.Renamed d d') (n : Nat) (command : Option Command) :
    r.Follows (d.placeAny n command) (d'.placeAny n (command.map r.command)) := by
  cases command
  case none => exact .ok h
  case some c =>
    rw [Option.map_some, Draft.placeAny, Draft.placeAny, statement_command]
    cases hs : c.statement
    case error => exact .error (error_of_fault (Command.fault_of_statement hs)).symm
    case ok s => exact .ok (h.place n c.words s)

theorem Renamed.add {line : Line} (h : r.Renamed d d') (n : Nat)
    (hl : ∀ name ∈ line.label, Word.isLabel name) :
    r.Follows (d.add n line) (d'.add n (r.line line)) := by
  have hd : r.Follows (d.defineAny line.label) (d'.defineAny (line.label.map r.label)) := by
    cases he : line.label
    case none => exact .ok h
    case some name => exact h.define (hl name he)
  rw [Draft.add_eq_bind, Draft.add_eq_bind]
  exact hd.bind fun d d' h => h.placeAny n line.command

theorem addRaw_rewrites {raw raw' : Text} (hm : ¬Expansion.hasMark (Source.content raw))
    (hm' : ¬Expansion.hasMark (Source.content raw')) (h : r.Rewrites raw raw')
    (hs : Source.lineLimit ≤ raw.length ↔ Source.lineLimit ≤ raw'.length)
    (asm : Assembler) (n : Nat) (hd : r.Renamed d d') :
    Alike r.Reports r.Renamed (Draft.addRaw asm n raw d) (Draft.addRaw asm n raw' d') := by
  rw [Draft.addRaw_of_not_hasMark hm, Draft.addRaw_of_not_hasMark hm', h]
  simp only [←hs]
  split
  case isTrue => exact .error ⟨[], rfl⟩
  case isFalse =>
    have ha : r.Follows (Line.read (Source.content raw) >>= d.add n)
        ((Line.read (Source.content raw)).map r.line >>= d'.add n) := by
      cases hr : Line.read (Source.content raw)
      case error => exact .error (by rw [Line.read_eq_error hr]; rfl)
      case ok line => exact hd.add n fun name hl => Line.isLabel_of_read hr hl
    exact ha.mapError fun e e' he => ⟨Source.content raw', by rw [he]⟩

theorem resolve_label (labels : Table Text Int) (name : Text) :
    Alike r.Reports Eq (Draft.resolve labels name)
      (Draft.resolve (labels.mapKeys r.label label_injective) (r.label name)) := by
  rw [Draft.resolve, Draft.resolve, Table.find?_mapKeys]
  cases labels.find? name <;> dsimp only
  case none => exact .error rfl
  case some ip =>
    split
    case isTrue => exact .ok rfl
    case isFalse => exact .error rfl

theorem patch_relocations (labels : Table Text Int) (relocations : List Relocation)
    (code : Array UInt8) : Alike r.Reports Eq (Draft.patch labels relocations code)
      (Draft.patch (labels.mapKeys r.label label_injective) (relocations.map r.relocation)
        code) := by
  induction relocations generalizing code
  case nil => exact .ok rfl
  case cons rel relocations hi =>
    rw [List.map_cons, Draft.patch_cons, Draft.patch_cons]
    exact (resolve_label labels rel.label).bind fun b _ hb => hb ▸ hi _

theorem link_draft (t : Table Text Text) (d : Draft) :
    Alike r.Reports (fun p p' => p' = r.program p) d.link (r.draft t d).link := by
  have hp := patch_relocations (r := r) d.labels d.relocations.toList d.code
  rw [←Array.toList_map] at hp
  refine hp.map fun code _ hc => ?_
  cases hc
  simp only [program, draft, Array.toList_map, List.map_map]
  rfl

theorem reports_failure (r : Renaming) (failure : Source.Failure) (n : Nat) :
    r.Reports (failure.error n) (failure.error n) := by
  cases failure
  case fault => rfl
  case tooLong report => cases report <;> exact ⟨[], rfl⟩

-- A name with underscores behind it.
def underscores (n : Nat) (name : Text) : Text :=
  name ++ List.replicate n '_'.toUInt8

theorem length_underscores (n : Nat) (name : Text) :
    (underscores n name).length = name.length + n := by
  simp [underscores]

theorem referable_underscores {name : Text} (h : Referable name) (n : Nat) :
    Referable (underscores n name) := by
  refine ⟨?_, fun reg he => ?_⟩
  case refine_1 =>
    have hs := h.spelled
    cases name
    case nil => contradiction
    case cons c rest =>
      simp only [Word.isLabel, underscores, List.cons_append, List.all_append, Bool.and_eq_true,
        List.all_eq_true, List.mem_replicate] at hs ⊢
      exact ⟨hs.left, hs.right, fun c hc => hc.right ▸ rfl⟩
  case refine_2 =>
    cases n
    case zero => exact h.free reg (by simpa [underscores] using he)
    case succ n =>
      have hm : '_'.toUInt8 ∈ reg.name := by
        rw [←he, underscores, List.replicate_succ]
        exact List.mem_map.mpr ⟨'_'.toUInt8, by simp, rfl⟩
      exact absurd (reg.isLetter_name _ hm) (by decide)

def underscored (n : Nat) : Renaming where
  map       := underscores n
  referable := fun _ h => referable_underscores h n
  injective := fun _ _ _ _ he => List.append_cancel_right he
  upper     := by
    intro x y hx hy
    rw [(referable_underscores hx n).upper_eq, (referable_underscores hy n).upper_eq, hx.upper_eq,
      hy.upper_eq]
    simp only [underscores, List.map_append, List.append_cancel_right_eq]

end Renaming

section

variable {name : Text}

theorem Expansion.not_hasMark_of_not_mem {t : Text} (h : '$'.toUInt8 ∉ t) : ¬hasMark t := by
  induction t
  case nil => exact Bool.false_ne_true
  case cons c t hi =>
    have ⟨hc, ht⟩ := not_or.mp (mt List.mem_cons.mpr h)
    simp [hasMark, Ne.symm hc, hi ht]

theorem Expansion.not_hasMark_labelled (h : Word.isLabel name) :
    ¬hasMark (name ++ Text.ofString ": HLT\nBAD\n") := by
  refine not_hasMark_of_not_mem (mt List.mem_append.mp (not_or.mpr ⟨?_, by decide⟩))
  exact Word.not_mem_of_isLabel h (by decide) (by decide)

theorem Source.lines_labelled (h : Word.isLabel name) :
    lines (name ++ Text.ofString ": HLT\nBAD\n") =
      [name ++ Text.ofString ": HLT", Text.ofString "BAD"] := by
  have hn : '\n'.toUInt8 ∉ name ++ Text.ofString ": HLT" := by
    refine mt List.mem_append.mp (not_or.mpr ⟨?_, by decide⟩)
    exact Word.not_mem_of_isLabel h (by decide) (by decide)
  have ht : Text.ofString ": HLT\nBAD\n" =
      Text.ofString ": HLT" ++ '\n'.toUInt8 :: Text.ofString "BAD\n" := by decide
  rw [ht, ←List.append_assoc, lines_append_newline hn]
  exact congrArg _ (by decide)

theorem Line.read_labelled (h : Word.isLabel name) : read (name ++ Text.ofString ": HLT") =
    .ok ⟨some name, some ⟨Text.ofString "HLT", []⟩⟩ := by
  have hm : IsMnemonic (Text.ofString "HLT") :=
    ⟨by decide, by decide, List.all_eq_true.mp (by decide)⟩
  have hw := Written.mk blanks_nil (.some h) blanks_space (.some hm .none)
    (⟨[], [], nofun, rfl, .inl rfl⟩ : Tail [])
  rw [List.nil_append, List.append_assoc] at hw
  exact read_of_written hw

theorem Renaming.rewrites_labelled (r : Renaming) (h : Referable name) :
    List.Forall₂ r.Rewrites (Source.lines (name ++ Text.ofString ": HLT\nBAD\n"))
      (Source.lines (r.map name ++ Text.ofString ": HLT\nBAD\n")) := by
  have hr := r.referable name h
  rw [Source.lines_labelled h.spelled, Source.lines_labelled hr.spelled]
  refine .cons ?_ (.cons (by rfl) .nil)
  rw [Rewrites, Line.read_content (Line.read_labelled h.spelled),
    Line.read_content (Line.read_labelled hr.spelled), ←label_of_referable h]
  rfl

end

namespace Assembler

-- Both sources have the same code, or both fail on the same line for the same cause.
theorem assemble_renamed (asm : Assembler) (r : Renaming) (source source' : Source)
    (hm : ¬Expansion.hasMark source.text) (hm' : ¬Expansion.hasMark source'.text)
    (hr : List.Forall₂ (fun raw raw' => r.Rewrites raw raw' ∧
      (Source.lineLimit ≤ raw.length ↔ Source.lineLimit ≤ raw'.length))
      (Source.lines source.text) (Source.lines source'.text))
    (hf : source'.failure = source.failure) :
    (∀ p, asm.assemble source = .ok p → ∃ p', asm.assemble source' = .ok p' ∧
      p'.code = p.code ∧ p'.mapping = p.mapping ∧ p'.records = p.records.map r.record ∧
      p'.labels = p.labels.mapKeys r.label Renaming.label_injective) ∧
    ∀ e, asm.assemble source = .error e →
      ∃ e', asm.assemble source' = .error e' ∧ r.Reports e e' := by
  have ⟨hlen, hr⟩ := List.forall₂_iff_zip.mp hr
  have hlines : Alike r.Reports r.Renamed
      (Draft.addLines asm 0 (Source.lines source.text) {})
      (Draft.addLines asm 0 (Source.lines source'.text) {}) := by
    refine Draft.addLines_alike 0 0 ?_ (Nat.le_refl 0) .empty
    refine List.forall₂_iff_zip.mpr ⟨hlen, fun hz n d d' _ hd => ?_⟩
    have ⟨hraw, hraw'⟩ := List.of_mem_zip hz
    exact Renaming.addRaw_rewrites (Source.not_hasMark_content hm hraw)
      (Source.not_hasMark_content hm' hraw') (hr hz).left (hr hz).right asm n hd
  have h : Alike r.Reports (fun p p' => p' = r.program p) (asm.assemble source)
      (asm.assemble source') :=
    assemble_alike hlines hf (fun failure => hlen ▸ r.reports_failure failure _)
      fun d _ hd => hd.draft ▸ Renaming.link_draft _ d
  refine ⟨fun p hp => ?_, fun e he => (he ▸ h).of_error⟩
  have ⟨p', hp', he⟩ := (hp ▸ h).of_ok
  exact ⟨p', hp', he ▸ rfl, he ▸ rfl, he ▸ rfl, he ▸ rfl⟩

-- Four labels, one of which no operand can refer to and which keeps its name.
theorem assemble_renamed_of_listing :
    let source : Source :=
      { text := Text.ofString "loop: MOV A, [Data]\nSP: JMP loop\nData: DB end\nend: HLT\n" }
    let source' : Source :=
      { text := Text.ofString
          "loop_: MOV A,[Data_] ; load\r\nSP:\tJMP loop_\nData_: DB end_\nend_: HLT" }
    ∃ p p', assemble {} source = .ok p ∧ assemble {} source' = .ok p' ∧
      p.code = [2, 0, 5, 31, 0, 6, 0] ∧ p'.code = p.code ∧ p'.mapping = p.mapping ∧
      p'.labels.entries.map Prod.fst = [Text.ofString "loop_", Text.ofString "SP",
        Text.ofString "Data_", Text.ofString "end_"] := by
  intro source source'
  have h : (assemble {} source).toOption.map (fun p => (p.code, p.labels.entries.map Prod.fst)) =
      some ([2, 0, 5, 31, 0, 6, 0], [Text.ofString "loop", Text.ofString "SP",
        Text.ofString "Data", Text.ofString "end"]) := by
    decide +kernel
  have hlen : (Source.lines source.text).length = (Source.lines source'.text).length := by
    decide +kernel
  have hz : ∀ pair ∈ (Source.lines source.text).zip (Source.lines source'.text),
      (Renaming.underscored 1).Rewrites pair.1 pair.2 ∧
        (Source.lineLimit ≤ pair.1.length ↔ Source.lineLimit ≤ pair.2.length) := by
    decide +kernel
  have hr := List.forall₂_iff_zip.mpr ⟨hlen, fun {raw raw'} hm => hz (raw, raw') hm⟩
  cases ha : assemble {} source
  case error => simp [ha, Except.toOption] at h
  case ok p =>
    simp only [ha, Except.toOption, Option.map_some, Option.some.injEq, Prod.mk.injEq] at h
    obtain ⟨hok, _⟩ := assemble_renamed {} (Renaming.underscored 1) source source'
      (by decide +kernel) (by decide +kernel) hr rfl
    obtain ⟨p', hp', hc, hm, _, hl⟩ := hok p ha
    refine ⟨p, p', rfl, hp', h.left, hc, hm, ?_⟩
    rw [hl, Table.keys_mapKeys, h.right]
    decide +kernel

theorem assemble_long_label {name : Text} (h : Word.isLabel name)
    (hl : Source.lineLimit ≤ name.length) :
    assemble {} { text := name ++ Text.ofString ": HLT\nBAD\n" } =
      .error (.onLine 0 [] .lineTooLong) := by
  have hl : Source.lineLimit ≤ (name ++ Text.ofString ": HLT").length := by
    rw [List.length_append]
    omega
  simp only [assemble, Source.lines_labelled h, Draft.addLines, if_pos hl]
  rfl

-- A name may be so long that its line is no longer read, and then no line below it is.
theorem not_reports_of_long_label :
    let r := Renaming.underscored Source.lineLimit
    let source (name : Text) : Source := { text := name ++ Text.ofString ": HLT\nBAD\n" }
    let x := Text.ofString "x"
    let e : Error := .onLine 1 (Text.ofString "BAD") (.unknownMnemonic (Text.ofString "BAD"))
    let e' : Error := .onLine 0 [] .lineTooLong
    ¬Expansion.hasMark (source x).text ∧ ¬Expansion.hasMark (source (r.map x)).text ∧
      List.Forall₂ r.Rewrites (Source.lines (source x).text)
        (Source.lines (source (r.map x)).text) ∧
      assemble {} (source x) = .error e ∧ assemble {} (source (r.map x)) = .error e' ∧
      ¬r.Reports e e' := by
  intro r source x e e'
  have hx : Referable x := by decide +kernel
  have hlong : Source.lineLimit ≤ (r.map x).length := by
    have hl := Renaming.length_underscores Source.lineLimit x
    exact hl ▸ Nat.le_add_left ..
  have he : assemble {} (source x) = .error e := by decide +kernel
  -- All that matters of the new name is its length.
  clear_value r
  have hname := (r.referable x hx).spelled
  exact ⟨Expansion.not_hasMark_labelled hx.spelled, Expansion.not_hasMark_labelled hname,
    r.rewrites_labelled hx, he, assemble_long_label hname hlong, by simp [e, e', Renaming.Reports]⟩

end Assembler

end ByteAsm
