import ByteAsm.Proofs.SourceLines
import ByteAsm.Proofs.Tiling

namespace ByteAsm

namespace Source

theorem lines_go_newline (line : Text) (done : List Text) (t rest : Text) :
    lines.go line done (t ++ '\n'.toUInt8 :: rest) =
      lines.go line done (t ++ ['\n'.toUInt8]) ++ lines rest := by
  induction t generalizing line done
  case nil =>
    simp only [List.nil_append, lines.go, beq_self_eq_true, if_true]
    rw [lines_go_done, lines]
  case cons c t hi =>
    simp only [List.cons_append, lines.go]
    split
    case isTrue => exact hi ..
    case isFalse => exact hi ..

-- Lines that all have an end are not changed by what follows.
theorem lines_append {t : Text} (ht : t = [] ∨ t.getLast? = some '\n'.toUInt8) (rest : Text) :
    lines (t ++ rest) = lines t ++ lines rest := by
  cases ht
  case inl ht =>
    subst ht
    rfl
  case inr ht =>
    have ⟨front, he⟩ := List.getLast?_eq_some_iff.mp ht
    rw [he, List.append_assoc, List.singleton_append]
    exact lines_go_newline ..

end Source

namespace Layout

variable {labels labels' : Table Text Int} {lines : List Line}

-- Only the labels that slots refer to matter for their bytes.
theorem map_value_congr {slots : List Slot}
    (h : ∀ name ∈ slots.filterMap Slot.label?, labels'.find? name = labels.find? name) :
    slots.map (Slot.value labels') = slots.map (Slot.value labels) := by
  refine List.map_congr_left fun slot hs => ?_
  cases slot
  case byte => rfl
  case label name => simp [Slot.value, h name (List.mem_filterMap.mpr ⟨_, hs, rfl⟩)]

theorem record?_congr {line : Line} (n ip : Nat)
    (h : ∀ name ∈ line.slots.filterMap Slot.label?, labels'.find? name = labels.find? name) :
    line.record? labels' n ip = line.record? labels n ip := by
  unfold Line.record?
  cases hc : line.command
  case none => rfl
  case some c =>
    cases hs : c.statement
    case error => simp [hs, Except.toOption]
    case ok s =>
      rw [Line.slots_of_statement hc hs] at h
      simp [hs, Except.toOption, map_value_congr h]

theorem records_congr (n ip : Nat)
    (h : ∀ name ∈ references lines, labels'.find? name = labels.find? name) :
    records labels' n ip lines = records labels n ip lines := by
  induction lines generalizing n ip
  case nil => rfl
  case cons line lines hi =>
    rw [references, slots_cons, List.filterMap_append] at h
    obtain ⟨hline, hlines⟩ := List.forall_mem_append.mp h
    rw [records, records, record?_congr n ip hline, hi _ _ hlines]

-- Labels that are defined further down leave the program of the lines above as it is.
theorem code_program_append (more : List Line)
    (h : ∀ name ∈ references lines, labels'.find? name = labels.find? name) :
    (program labels' (lines ++ more)).code =
      (program labels lines).code ++ (slots more).map (Slot.value labels') := by
  simp only [program, slots_append, List.map_append, map_value_congr h]

theorem records_program_append (more : List Line)
    (h : ∀ name ∈ references lines, labels'.find? name = labels.find? name) :
    (program labels' (lines ++ more)).records = (program labels lines).records ++
      records labels' lines.length (slots lines).length more := by
  rw [program_records, program_records, records_append, records_congr 0 0 h, Nat.zero_add,
    Nat.zero_add]

theorem mapping_program_append (labels labels' : Table Text Int) (lines more : List Line) :
    (program labels' (lines ++ more)).mapping.entries = (program labels lines).mapping.entries ++
      mapping lines.length (slots lines).length more := by
  rw [program_mapping, program_mapping, mapping_append, Nat.zero_add, Nat.zero_add]

end Layout

-- A program that another one begins with.
structure Program.Extends (p q : Program) : Prop where
  code       : p.code <+: q.code
  records    : p.records <+: q.records
  labels     : ∀ name offset, p.labels.find? name = some offset →
    q.labels.find? name = some offset
  mapping    : ∀ ip line, p.mapping.find? ip = some line → q.mapping.find? ip = some line
  newLabels  : ∀ name offset, q.labels.find? name = some offset →
    p.labels.find? name ≠ some offset → p.code.length ≤ offset
  newMapping : ∀ ip line, q.mapping.find? ip = some line → p.mapping.find? ip ≠ some line →
    p.code.length ≤ ip

namespace Draft

variable {asm : Assembler} {d₁ d₂ : Draft} {n : Nat} {raws₁ raws₂ : List Text}
  {lines₁ lines₂ : List Line}

-- The two programs that come of stopping between two runs and of going on.
theorem Run.program_extends (r₁ : Run asm 0 raws₁ lines₁ {} d₁)
    (r₂ : Run asm n raws₂ lines₂ d₁ d₂)
    (h : ∀ name ∈ Layout.references lines₁, Layout.fault? d₁.labels name = none) :
    (Layout.program d₁.labels lines₁).Extends (Layout.program d₂.labels (lines₁ ++ lines₂)) := by
  have e₂ := r₂.extends (r₁.coherent .empty)
  have hf : ∀ name ∈ Layout.references lines₁, d₂.labels.find? name = d₁.labels.find? name := by
    intro name hn
    have ⟨_, _, hf⟩ := Layout.fault?_eq_none_iff.mp (h name hn)
    exact e₂.find?_eq (List.mem_map_of_mem (Table.find?_eq_some_iff.mp hf))
  have hsize : d₁.code.size = (Layout.slots lines₁).length := by
    simpa using (r₁.extends .empty).size_eq
  have hmap := Layout.mapping_program_append d₁.labels d₂.labels lines₁ lines₂
  have hlen : (Layout.program d₁.labels lines₁).code.length = (Layout.slots lines₁).length :=
    List.length_map _
  constructor
  case code => exact ⟨_, (Layout.code_program_append lines₂ hf).symm⟩
  case records => exact ⟨_, (Layout.records_program_append lines₂ hf).symm⟩
  case labels =>
    intro name offset hn
    have hm := Table.find?_eq_some_iff.mp hn
    exact Table.find?_eq_some_iff.mpr (e₂.labels ▸ List.mem_append_left _ hm)
  case mapping =>
    intro ip line hl
    have hm := Table.find?_eq_some_iff.mp hl
    exact Table.find?_eq_some_iff.mpr (hmap ▸ List.mem_append_left _ hm)
  case newLabels =>
    intro name offset hq hp
    have hm := Table.find?_eq_some_iff.mp hq
    rw [show (Layout.program d₂.labels (lines₁ ++ lines₂)).labels.entries = _ from
      e₂.labels, List.mem_append] at hm
    have hm := hm.resolve_left fun hm => hp (Table.find?_eq_some_iff.mpr hm)
    have ⟨_, _, _, _, ho⟩ := Layout.mem_labels_iff.mp hm
    omega
  case newMapping =>
    intro ip line hq hp
    have hm := Table.find?_eq_some_iff.mp hq
    rw [hmap, List.mem_append] at hm
    have hm := hm.resolve_left fun hm => hp (Table.find?_eq_some_iff.mpr hm)
    have hle := Layout.le_of_mem_mapping hm
    omega

end Draft

namespace Assembler

theorem assemble_append_extends (asm : Assembler) (t rest : Text) (p q : Program)
    (ht : t = [] ∨ t.getLast? = some '\n'.toUInt8) (hp : asm.assemble { text := t } = .ok p)
    (hq : asm.assemble { text := t ++ rest } = .ok q) : p.Extends q := by
  have ⟨lines₁, d₁, r₁, _, h₁, hp⟩ := assemble_eq_ok_iff.mp hp
  have ⟨lines, d₂, r, _, _, hq⟩ := assemble_eq_ok_iff.mp hq
  rw [Source.lines_append ht] at r
  have ⟨lines₁', lines₂, d₁', hl, r₁', r₂⟩ := r.split
  -- Both sources pass through the same draft where the first one ends.
  have ⟨hlines, hd⟩ := r₁.deterministic r₁'
  subst hlines hd hl hp hq
  exact r₁.program_extends r₂ h₁

-- The text behind refers back to a label and starts with one that is new.
theorem assemble_append_extends_of_listing :
    let t := Text.ofString "start: MOV A, end\nend: DB $(start + LINENO)\n"
    let rest := Text.ofString "more: JMP end\nDB more"
    ∃ p q, assemble {} { text := t } = .ok p ∧ assemble {} { text := t ++ rest } = .ok q ∧
      p.code = [6, 0, 3, 1] ∧ q.code = [6, 0, 3, 1, 31, 3, 4] ∧ p.Extends q := by
  intro t rest
  have hp : (assemble {} { text := t }).toOption.map Program.code = some [6, 0, 3, 1] := by
    decide +kernel
  have hq : (assemble {} { text := t ++ rest }).toOption.map Program.code =
      some [6, 0, 3, 1, 31, 3, 4] := by
    decide +kernel
  cases ha : assemble {} { text := t }
  case error => simp [ha, Except.toOption] at hp
  case ok p =>
    cases hb : assemble {} { text := t ++ rest }
    case error => simp [hb, Except.toOption] at hq
    case ok q =>
      refine ⟨p, q, rfl, rfl, by simpa [ha, Except.toOption] using hp,
        by simpa [hb, Except.toOption] using hq, ?_⟩
      exact assemble_append_extends {} t rest p q (.inr (by decide +kernel)) ha hb

end Assembler

end ByteAsm
