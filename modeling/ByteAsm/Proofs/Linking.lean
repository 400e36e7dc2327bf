import ByteAsm.Proofs.Layout

namespace ByteAsm

namespace Slot

def label? : Slot → Option Text
  | byte _ => none
  | label name => some name

-- The byte of a slot. A label that is not in the table counts as zero.
def value (labels : Table Text Int) : Slot → UInt8
  | byte b => b
  | label name => UInt8.ofNat ((labels.find? name).getD 0).toNat

end Slot

def Line.record? (labels : Table Text Int) (n ip : Nat) (line : Line) : Option Record :=
  line.command.bind fun c =>
    c.statement.toOption.map fun s => ⟨n, ip, c.words, s.slots.map (Slot.value labels), s.isData⟩

-- The mapping is what the instructions say about their lines.
def Program.Mapped (p : Program) : Prop :=
  p.mapping.entries = p.instructions.map fun r => (r.ip, r.line)

namespace Layout

-- The labels that the code of lines refers to, from its start to its end.
def references (lines : List Line) : List Text :=
  (slots lines).filterMap Slot.label?

-- Why a byte cannot hold the offset of a label: it is not defined in this spelling, or too far off.
def fault? (labels : Table Text Int) (name : Text) : Option Error :=
  match labels.find? name with
  | none => some (.undefinedLabel name)
  | some ip => if ip ≤ 255 then none else some (.labelRange name)

-- A label that is defined in this very spelling, at an offset that a byte can hold.
def InReach (labels : Table Text Int) (name : Text) : Prop :=
  ∃ offset ≤ 255, labels.find? name = some offset

def program (labels : Table Text Int) (lines : List Line) : Program where
  code    := (slots lines).map (Slot.value labels)
  mapping := .ofEntries (mapping 0 0 lines)
  labels  := labels
  records := (extents 0 0 lines).map (Draft.record ((slots lines).map (Slot.value labels)).toArray)

-- The records of lines of which the first has the number `n` and its code starts at `ip`.
def records (labels : Table Text Int) : (n ip : Nat) → List Line → List Record
  | _, _, [] => []
  | n, ip, line :: rest =>
    (line.record? labels n ip).toList ++ records labels (n + 1) (ip + line.slots.length) rest

variable {labels : Table Text Int} {name : Text} {n ip : Nat} {line : Line} {lines : List Line}
  {entry : Int × Int}

theorem fault?_eq_none_iff : fault? labels name = none ↔ InReach labels name := by
  unfold fault? InReach
  cases labels.find? name
  case none => simp
  case some ip => by_cases h : ip ≤ 255 <;> simp [h]

-- The bytes of an extent are cut out of the code where its slots stand.
theorem record_extent? (labels : Table Text Int) (n : Nat) (line : Line) (done rest : List UInt8) :
    (line.extent? n done.length).map
        (Draft.record (done ++ (line.slots.map (Slot.value labels) ++ rest)).toArray) =
      line.record? labels n done.length := by
  unfold Line.extent? Line.record?
  cases hc : line.command
  case none => rfl
  case some c =>
    cases hs : c.statement
    case error => simp [hs, Except.toOption]
    case ok s => simp [hs, Except.toOption, Draft.record, Line.slots_of_statement hc hs]

theorem map_record_extents (labels : Table Text Int) (n : Nat) (done : List UInt8)
    (lines : List Line) :
    (extents n done.length lines).map
        (Draft.record (done ++ (slots lines).map (Slot.value labels)).toArray) =
      records labels n done.length lines := by
  induction lines generalizing n done
  case nil => rfl
  case cons line lines hi =>
    have h := hi (n + 1) (done ++ line.slots.map (Slot.value labels))
    simp only [List.length_append, List.length_map, List.append_assoc] at h
    have hr := record_extent? labels n line done ((slots lines).map (Slot.value labels))
    simp only [extents, records, List.map_append, slots_cons, h, ←hr, ←Option.toList_map]

theorem program_records (labels : Table Text Int) (lines : List Line) :
    (program labels lines).records = records labels 0 0 lines :=
  map_record_extents labels 0 [] lines

theorem of_mapped? (h : line.mapped? n ip = some entry) :
    entry = ((ip : Int), (n : Int)) ∧ line.slots ≠ [] := by
  simp only [Line.mapped?, Option.map_eq_some_iff, Option.filter_eq_some_iff] at h
  obtain ⟨s, ⟨hs, hd⟩, he⟩ := h
  refine ⟨he.symm, ?_⟩
  rw [Line.slots, hs]
  exact Statement.slots_ne_nil (by simpa using hd)

theorem le_of_mem_mapping (h : entry ∈ mapping n ip lines) : (ip : Int) ≤ entry.1 := by
  induction lines generalizing n ip
  case nil => contradiction
  case cons line lines hi =>
    rw [mapping, List.mem_append, Option.mem_toList] at h
    cases h
    case inl h => simp [(of_mapped? h).left]
    case inr h => exact Int.le_trans (by omega) (hi h)

-- Every instruction has a byte, so the next one starts at a higher offset.
theorem pairwise_mapping (n ip : Nat) (lines : List Line) :
    (mapping n ip lines).Pairwise (·.1 < ·.1) := by
  induction lines generalizing n ip
  case nil => exact .nil
  case cons line lines hi =>
    rw [mapping]
    cases hm : line.mapped? n ip
    case none => exact hi _ _
    case some entry =>
      obtain ⟨he, hs⟩ := of_mapped? hm
      refine .cons (fun entry' h' => ?_) (hi _ _)
      have hle := le_of_mem_mapping h'
      have hpos := List.length_pos_iff.mpr hs
      simp only [he]
      omega

theorem program_mapping (labels : Table Text Int) (lines : List Line) :
    (program labels lines).mapping.entries = mapping 0 0 lines := by
  refine Table.entries_ofEntries (List.pairwise_map.mpr ?_)
  exact (pairwise_mapping 0 0 lines).imp Int.ne_of_lt

theorem mapped?_eq_record? (labels : Table Text Int) (n ip : Nat) (line : Line) :
    line.mapped? n ip =
      ((line.record? labels n ip).filter fun r => !r.data).map fun r => (r.ip, r.line) := by
  unfold Line.record?
  cases hc : line.command
  case none => simp [Line.mapped?, Line.statement?, hc]
  case some c =>
    cases hs : c.statement
    case error => simp [Line.mapped?, Line.statement?, hc, hs, Except.toOption]
    case ok s =>
      rw [Line.mapped?_of_statement hc hs]
      cases hd : s.isData <;> simp [hs, hd, Except.toOption, Option.filter]

theorem mapping_eq_records (labels : Table Text Int) (n ip : Nat) (lines : List Line) :
    mapping n ip lines =
      ((records labels n ip lines).filter fun r => !r.data).map fun r => (r.ip, r.line) := by
  induction lines generalizing n ip
  case nil => rfl
  case cons line lines hi =>
    rw [mapping, records, mapped?_eq_record? labels, hi, List.filter_append, List.map_append,
      Option.toList_map, Option.toList_filter]

theorem mapped_program (labels : Table Text Int) (lines : List Line) :
    (program labels lines).Mapped := by
  rw [Program.Mapped, program_mapping, mapping_eq_records labels, Program.instructions,
    program_records]

end Layout

namespace Draft

open Layout (slots references fault? program)

theorem resolve_eq (labels : Table Text Int) (name : Text) :
    resolve labels name =
      match fault? labels name with
      | some e => .error e
      | none => .ok (Slot.value labels (.label name)) := by
  unfold resolve fault? Slot.value
  cases hf : labels.find? name
  case none => rfl
  case some ip => by_cases h : ip ≤ 255 <;> simp [h, hf]

-- `done` is the code that needs no more patches, and the invariant is that its length is the offset
-- of the first slot left.
theorem patch_relocations (labels : Table Text Int) (slots : List Slot) (done : List UInt8) :
    patch labels (Layout.relocations done.length slots)
        (done ++ slots.map Slot.placeholder).toArray =
      match (slots.filterMap Slot.label?).findSome? (fault? labels) with
      | some e => .error e
      | none => .ok (done ++ slots.map (Slot.value labels)).toArray := by
  induction slots generalizing done
  case nil => simp [Layout.relocations, patch]
  case cons slot slots hi =>
    cases slot
    case byte b =>
      have h := hi (done ++ [b])
      simp only [List.length_append, List.length_singleton, List.append_assoc,
        List.singleton_append] at h
      have hc : (.byte b :: slots).filterMap Slot.label? = slots.filterMap Slot.label? := rfl
      simp [Layout.relocations, Slot.placeholder, Slot.value, hc, h]
    case label name =>
      have hc : (.label name :: slots).filterMap Slot.label? =
          name :: slots.filterMap Slot.label? := rfl
      simp only [Layout.relocations, patch, resolve_eq, hc, List.findSome?_cons, List.map_cons]
      cases fault? labels name
      case some e => rfl
      case none =>
        have h := hi (done ++ [Slot.value labels (.label name)])
        simp only [List.length_append, List.length_singleton, List.append_assoc,
          List.singleton_append] at h
        simp [Slot.placeholder, h]

-- The second pass after a whole run: the first fault in the order of the code, or the program whose
-- code has the byte of each slot in its place.
theorem Run.link_eq {asm : Assembler} {raws : List Text} {lines : List Line} {d : Draft}
    (r : Run asm 0 raws lines {} d) :
    d.link =
      match (references lines).findSome? (fault? d.labels) with
      | some e => .error e
      | none => .ok (program d.labels lines) := by
  have e := r.extends .empty
  have hc : d.code = ((slots lines).map Slot.placeholder).toArray := by
    simpa using congrArg List.toArray e.code
  have hr : d.relocations.toList = Layout.relocations 0 (slots lines) := by
    simpa using e.relocations
  have he : d.extents.toList = Layout.extents 0 0 lines := by simpa using e.extents
  have hm : d.mapping = .ofEntries (Layout.mapping 0 0 lines) := by
    have h : d.mapping.entries = Layout.mapping 0 0 lines := e.mapping
    rw [←h, Table.ofEntries_entries]
  have hp := patch_relocations d.labels (slots lines) []
  simp only [List.length_nil, List.nil_append] at hp
  rw [link, hc, hr, hp, references]
  split <;> simp [Except.map, program, he, hm]

end Draft

namespace Assembler

open Draft (Run)

variable {asm : Assembler} {source : Source} {p : Program}

-- Assembly succeeds exactly if all lines are added, reading the source did not break off, and each
-- label that the code refers to has an offset that fits a byte.
theorem assemble_eq_ok_iff : asm.assemble source = .ok p ↔
    ∃ lines d, Run asm 0 (Source.lines source.text) lines {} d ∧ source.failure = none ∧
      (∀ name ∈ Layout.references lines, Layout.fault? d.labels name = none) ∧
      p = Layout.program d.labels lines := by
  constructor
  case mp =>
    intro h
    unfold assemble at h
    split at h <;> try contradiction
    case h_2 d ha =>
      have ⟨lines, r⟩ := Run.of_addLines_eq_ok ha
      split at h <;> try contradiction
      case h_2 hf =>
        rw [r.link_eq] at h
        split at h <;> cases h
        case h_2 hr => exact ⟨lines, d, r, hf, List.findSome?_eq_none_iff.mp hr, rfl⟩
  case mpr =>
    intro ⟨lines, d, r, hf, hr, hp⟩
    have hr := List.findSome?_eq_none_iff.mpr hr
    simp only [assemble, r.addLines_eq_ok, hf, r.link_eq, hr, hp]

end Assembler

end ByteAsm
