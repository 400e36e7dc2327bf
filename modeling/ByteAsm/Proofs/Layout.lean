import ByteAsm.Proofs.Bytes
import ByteAsm.Proofs.FirstPass
import ByteAsm.Proofs.Table

namespace ByteAsm

-- The statement of the command on a line, if there is a command and it fits the instruction set.
def Line.statement? (line : Line) : Option Statement :=
  line.command.bind (·.statement.toOption)

def Line.slots (line : Line) : List Slot :=
  line.statement?.elim [] Statement.slots

def Line.extent? (n ip : Nat) (line : Line) : Option Extent :=
  line.command.bind fun c =>
    c.statement.toOption.map fun s => ⟨n, ip, s.slots.length, c.words, s.isData⟩

-- The offset and the number of a line that holds an instruction.
def Line.mapped? (n ip : Nat) (line : Line) : Option (Int × Int) :=
  (line.statement?.filter fun s => !s.isData).map fun _ => (ip, n)

theorem Line.slots_of_no_command {line : Line} (h : line.command = none) : line.slots = [] := by
  simp [slots, statement?, h]

theorem Line.slots_of_statement {line : Line} {c : Command} {s : Statement}
    (hc : line.command = some c) (hs : c.statement = .ok s) : line.slots = s.slots := by
  simp [slots, statement?, hc, hs, Except.toOption]

theorem Line.mapped?_of_statement {line : Line} {c : Command} {s : Statement}
    (hc : line.command = some c) (hs : c.statement = .ok s) (n ip : Nat) :
    line.mapped? n ip = if s.isData then none else some ((ip : Int), (n : Int)) := by
  cases hd : s.isData <;> simp [mapped?, statement?, hc, hs, hd, Except.toOption, Option.filter]

theorem Statement.slots_ne_nil {s : Statement} (h : s.isData = false) : s.slots ≠ [] := by
  cases s
  case data => contradiction
  case instruction => simp [slots]

-- What the first pass writes for a slot.
def Slot.placeholder : Slot → UInt8
  | byte b => b
  | label _ => 0

namespace Layout

def slots (lines : List Line) : List Slot :=
  lines.flatMap Line.slots

-- The labels of lines, each with the offset at which the code of its line starts. The code of the
-- first line starts at `ip`.
def labels : (ip : Nat) → List Line → List (Text × Int)
  | _, [] => []
  | ip, line :: rest =>
    (line.label.map (·, (ip : Int))).toList ++ labels (ip + line.slots.length) rest

def extents : (n ip : Nat) → List Line → List Extent
  | _, _, [] => []
  | n, ip, line :: rest =>
    (line.extent? n ip).toList ++ extents (n + 1) (ip + line.slots.length) rest

def mapping : (n ip : Nat) → List Line → List (Int × Int)
  | _, _, [] => []
  | n, ip, line :: rest =>
    (line.mapped? n ip).toList ++ mapping (n + 1) (ip + line.slots.length) rest

-- The places of labels among slots of which the first has the offset `ip`.
def relocations : (ip : Nat) → List Slot → List Relocation
  | _, [] => []
  | ip, .byte _ :: rest => relocations (ip + 1) rest
  | ip, .label name :: rest => ⟨ip, name⟩ :: relocations (ip + 1) rest

variable {ip : Nat} {line : Line} {lines lines₁ lines₂ : List Line} {name : Text} {offset : Int}

theorem slots_cons : slots (line :: lines) = line.slots ++ slots lines :=
  List.flatMap_cons

theorem slots_append : slots (lines₁ ++ lines₂) = slots lines₁ ++ slots lines₂ :=
  List.flatMap_append

theorem labels_append (ip : Nat) (lines₁ lines₂ : List Line) :
    labels ip (lines₁ ++ lines₂) =
      labels ip lines₁ ++ labels (ip + (slots lines₁).length) lines₂ := by
  induction lines₁ generalizing ip
  case nil => rfl
  case cons line lines₁ hi => simp [labels, slots_cons, hi, Nat.add_assoc]

theorem extents_append (n ip : Nat) (lines₁ lines₂ : List Line) :
    extents n ip (lines₁ ++ lines₂) =
      extents n ip lines₁ ++ extents (n + lines₁.length) (ip + (slots lines₁).length) lines₂ := by
  induction lines₁ generalizing n ip
  case nil => rfl
  case cons line lines₁ hi =>
    simp [extents, slots_cons, hi, Nat.add_assoc, Nat.add_comm 1]

theorem mapping_append (n ip : Nat) (lines₁ lines₂ : List Line) :
    mapping n ip (lines₁ ++ lines₂) =
      mapping n ip lines₁ ++ mapping (n + lines₁.length) (ip + (slots lines₁).length) lines₂ := by
  induction lines₁ generalizing n ip
  case nil => rfl
  case cons line lines₁ hi =>
    simp [mapping, slots_cons, hi, Nat.add_assoc, Nat.add_comm 1]

theorem relocations_append (ip : Nat) (slots₁ slots₂ : List Slot) :
    relocations ip (slots₁ ++ slots₂) =
      relocations ip slots₁ ++ relocations (ip + slots₁.length) slots₂ := by
  induction slots₁ generalizing ip
  case nil => rfl
  case cons slot slots₁ hi => cases slot <;> simp [relocations, hi, Nat.add_assoc, Nat.add_comm 1]

theorem labels_keys (ip : Nat) (lines : List Line) :
    (labels ip lines).map Prod.fst = lines.filterMap Line.label := by
  induction lines generalizing ip
  case nil => rfl
  case cons line lines hi => cases hl : line.label <;> simp [labels, hl, hi]

-- A label stands at the end of the code of the lines above it.
theorem mem_labels_iff : (name, offset) ∈ labels ip lines ↔
    ∃ i line, lines[i]? = some line ∧ line.label = some name ∧
      offset = ip + (slots (lines.take i)).length := by
  induction lines generalizing ip
  case nil => simp [labels]
  case cons line lines hi =>
    simp only [labels, List.mem_append, hi]
    constructor
    case mp =>
      rintro (h | ⟨i, line', hi, hl, ho⟩)
      case inl =>
        simp only [Option.mem_toList, Option.map_eq_some_iff, Prod.mk.injEq] at h
        have ⟨_, hl, hn, ho⟩ := h
        exact ⟨0, line, rfl, hn ▸ hl, by simp [slots, ho]⟩
      case inr =>
        refine ⟨i + 1, line', hi, hl, ?_⟩
        simp [slots_cons, ho, Int.add_assoc]
    case mpr =>
      rintro ⟨i, line', hi, hl, ho⟩
      cases i
      case zero =>
        cases hi
        simp [hl, ho, slots]
      case succ i =>
        refine .inr ⟨i, line', hi, hl, ?_⟩
        simp [ho, slots_cons, Int.add_assoc]

end Layout

namespace Draft

variable {d d' d₁ d₂ : Draft} {n : Nat} {label : Text} {line : Line}
variable {lines lines₁ lines₂ : List Line}

theorem define_eq_ok_iff : d.define label = .ok d' ↔
    d.normalized.find? label.upper = none ∧ label.upper ∉ reserved ∧
      d' = { d with
        normalized := d.normalized.insert label.upper label
        labels     := d.labels.insert label d.code.size } := by
  unfold define
  cases d.normalized.find? label.upper
  case some => simp
  case none =>
    by_cases hr : label.upper ∈ reserved
    case pos => simp [hr]
    case neg => simp [hr, eq_comm]

theorem foldl_emit_eq (slots : List Slot) (d : Draft) :
    slots.foldl emit d = { d with
      code        := d.code ++ slots.map Slot.placeholder
      relocations := d.relocations ++ Layout.relocations d.code.size slots } := by
  induction slots generalizing d
  case nil => simp [Layout.relocations]
  case cons slot slots hi => cases slot <;> simp [hi, emit, Layout.relocations, Slot.placeholder]

-- What a statement adds to a draft. The labels are left alone.
theorem place_eq (d : Draft) (n : Nat) (words : List Text) (s : Statement) :
    d.place n words s = { d with
      code        := d.code ++ s.slots.map Slot.placeholder
      relocations := d.relocations ++ Layout.relocations d.code.size s.slots
      mapping     := if s.isData then d.mapping else d.mapping.insert d.code.size n
      extents     := d.extents.push ⟨n, d.code.size, s.slots.length, words, s.isData⟩ } :=
  foldl_emit_eq ..

-- The tables of a draft stay in step: what is normalized are the labels, in the same order, and an
-- instruction that is mapped starts before the end of the code.
structure Coherent (d : Draft) : Prop where
  normalized : d.normalized.entries = d.labels.entries.map fun entry => (entry.1.upper, entry.1)
  mapping    : ∀ ip ∈ d.mapping.entries.map Prod.fst, ip < d.code.size

namespace Coherent

theorem empty : Coherent {} where
  normalized := rfl
  mapping    := nofun

-- A label that may be defined is in neither table.
theorem not_mem_labels (h : d.Coherent) (hf : d.normalized.find? label.upper = none) :
    label ∉ d.labels.entries.map Prod.fst := by
  intro hm
  refine Table.find?_eq_none_iff.mp hf ?_
  have ⟨entry, he, hk⟩ := List.mem_map.mp hm
  rw [h.normalized, List.map_map]
  exact List.mem_map.mpr ⟨entry, he, hk ▸ rfl⟩

theorem not_mem_mapping (h : d.Coherent) : (d.code.size : Int) ∉ d.mapping.entries.map Prod.fst :=
  fun hm => Int.lt_irrefl _ (h.mapping _ hm)

theorem insert (h : d.Coherent) (hf : d.normalized.find? label.upper = none) :
    Coherent { d with
      normalized := d.normalized.insert label.upper label
      labels     := d.labels.insert label d.code.size } := by
  refine ⟨?_, h.mapping⟩
  simp only [Table.entries_insert_of_not_mem (Table.find?_eq_none_iff.mp hf),
    Table.entries_insert_of_not_mem (h.not_mem_labels hf), List.map_append, ←h.normalized]
  rfl

theorem defineAny {label : Option Text} (h : d.Coherent) (hd : d.defineAny label = .ok d') :
    d'.Coherent := by
  cases label
  case none =>
    cases hd
    exact h
  case some label =>
    have ⟨hf, _, he⟩ := define_eq_ok_iff.mp hd
    exact he ▸ h.insert hf

-- An instruction is new to the mapping, since its code starts where the code before it ends.
theorem mapping_place (h : d.Coherent) (n : Nat) (words : List Text) (s : Statement) :
    (d.place n words s).mapping.entries =
      d.mapping.entries ++ if s.isData then [] else [((d.code.size : Int), (n : Int))] := by
  rw [place_eq]
  cases s.isData
  case true => simp
  case false => exact Table.entries_insert_of_not_mem h.not_mem_mapping

theorem place (h : d.Coherent) (n : Nat) (words : List Text) (s : Statement) :
    (d.place n words s).Coherent where
  normalized    := by simpa only [place_eq] using h.normalized
  mapping ip hm := by
    have hsize : (d.place n words s).code.size = d.code.size + s.slots.length := by
      rw [place_eq, ←Array.length_toList]
      simp
    rw [h.mapping_place, List.map_append, List.mem_append] at hm
    rw [hsize]
    cases hm
    case inl hm => exact Int.lt_of_lt_of_le (h.mapping ip hm) (by omega)
    case inr hm =>
      cases hs : s.isData
      case true => simp [hs] at hm
      case false =>
        have hpos := List.length_pos_iff.mpr (Statement.slots_ne_nil hs)
        have he : ip = d.code.size := by simpa [hs] using hm
        omega

end Coherent

-- What the first pass has added to a draft when it has read lines from number `n` on.
structure Extends (n : Nat) (lines : List Line) (d d' : Draft) : Prop where
  code        : d'.code.toList = d.code.toList ++ (Layout.slots lines).map Slot.placeholder
  relocations : d'.relocations.toList =
    d.relocations.toList ++ Layout.relocations d.code.size (Layout.slots lines)
  labels      : d'.labels.entries = d.labels.entries ++ Layout.labels d.code.size lines
  extents     : d'.extents.toList = d.extents.toList ++ Layout.extents n d.code.size lines
  mapping     : d'.mapping.entries = d.mapping.entries ++ Layout.mapping n d.code.size lines

namespace Extends

theorem refl (n : Nat) (d : Draft) : Extends n [] d d := by
  constructor <;>
    simp [Layout.slots, Layout.relocations, Layout.labels, Layout.extents, Layout.mapping]

theorem size_eq (e : Extends n lines d d') :
    d'.code.size = d.code.size + (Layout.slots lines).length := by
  have h := congrArg List.length e.code
  simpa using h

theorem trans (e₁ : Extends n lines₁ d d₁) (e₂ : Extends (n + lines₁.length) lines₂ d₁ d₂) :
    Extends n (lines₁ ++ lines₂) d d₂ where
  code        := by simp [e₂.code, e₁.code, Layout.slots_append]
  relocations := by
    simp [e₂.relocations, e₁.relocations, e₁.size_eq, Layout.slots_append,
      Layout.relocations_append]
  labels      := by simp [e₂.labels, e₁.labels, e₁.size_eq, Layout.labels_append]
  extents     := by simp [e₂.extents, e₁.extents, e₁.size_eq, Layout.extents_append]
  mapping     := by simp [e₂.mapping, e₁.mapping, e₁.size_eq, Layout.mapping_append]

end Extends

theorem defineAny_eq_ok {label : Option Text} (hd : d.Coherent) (h : d.defineAny label = .ok d') :
    d'.code = d.code ∧ d'.relocations = d.relocations ∧ d'.extents = d.extents ∧
      d'.mapping = d.mapping ∧
      d'.labels.entries = d.labels.entries ++ (label.map (·, (d.code.size : Int))).toList := by
  cases label
  case none =>
    cases h
    simp
  case some label =>
    have ⟨hf, _, he⟩ := define_eq_ok_iff.mp h
    simp [he, Table.entries_insert_of_not_mem (hd.not_mem_labels hf)]

-- A draft takes a line exactly if it takes the label and the command is none or a statement.
theorem add_eq_ok_iff : d.add n line = .ok d' ↔
    ∃ d₁, d.defineAny line.label = .ok d₁ ∧
      (line.command = none ∧ d' = d₁ ∨
        ∃ c s, line.command = some c ∧ c.statement = .ok s ∧ d' = d₁.place n c.words s) := by
  unfold add
  cases d.defineAny line.label
  case error => simp
  case ok d₁ =>
    cases line.command
    case none => simp [placeAny, eq_comm]
    case some c =>
      cases hs : c.statement <;> simp [placeAny, hs, Except.map, eq_comm]

theorem Coherent.add (h : d.Coherent) (ha : d.add n line = .ok d') : d'.Coherent := by
  have ⟨d₁, hd, ha⟩ := add_eq_ok_iff.mp ha
  have h₁ := h.defineAny hd
  rcases ha with ⟨_, rfl⟩ | ⟨c, s, _, _, rfl⟩
  case inl => exact h₁
  case inr => exact h₁.place n c.words s

theorem extends_of_add (h : d.Coherent) (ha : d.add n line = .ok d') : Extends n [line] d d' := by
  have ⟨d₁, hd, ha⟩ := add_eq_ok_iff.mp ha
  have ⟨hc, hr, he, hm, hl⟩ := defineAny_eq_ok h hd
  rcases ha with ⟨hk, rfl⟩ | ⟨c, s, hk, hs, rfl⟩
  case inl =>
    constructor <;>
      simp [Layout.slots, Layout.labels, Layout.relocations, Layout.extents, Layout.mapping,
        Line.extent?, Line.mapped?, Line.statement?, Line.slots_of_no_command hk, hk, hc, hr, he,
        hm, hl]
  case inr =>
    have hp := (h.defineAny hd).mapping_place n c.words s
    constructor
    case mapping =>
      rw [hp, hm, hc]
      cases hs' : s.isData <;> simp [Layout.mapping, Line.mapped?_of_statement hk hs, hs']
    all_goals
      simp [Layout.slots, Layout.labels, Layout.extents, Line.extent?, Except.toOption, place_eq,
        Line.slots_of_statement hk hs, hk, hs, hc, hr, he, hl]

variable {asm : Assembler} {raws : List Text}

theorem Run.coherent (r : Run asm n raws lines d d') (h : d.Coherent) : d'.Coherent := by
  induction r
  case refl => exact h
  case step s _ hi => exact hi (h.add s.adds)

theorem Run.extends (r : Run asm n raws lines d d') (h : d.Coherent) : Extends n lines d d' := by
  induction r
  case refl => exact .refl _ _
  case step s _ hi => exact (extends_of_add h s.adds).trans (hi (h.add s.adds))

end Draft

end ByteAsm
