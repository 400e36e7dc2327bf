import ByteAsm.Proofs.Linking
import ByteAsm.Proofs.Reading

namespace ByteAsm

open InstructionSet (arity? select)

-- The byte of an operand. A label stands for its offset, which has to fit.
def Operand.byte? (labels : Table Text Int) (op : Operand) : Option UInt8 :=
  match op.label with
  | none => some op.value
  | some name =>
    (labels.find? name).bind fun offset =>
      if 0 ≤ offset ∧ offset ≤ 255 then some (UInt8.ofNat offset.toNat) else none

-- The bytes of data: one for a number, and those of a string.
def Operand.data? (labels : Table Text Int) (op : Operand) : Option (List UInt8) :=
  match op.kind with
  | .number => (op.byte? labels).map ([·])
  | .numbers => some op.values
  | _ => none

def Command.encode? (labels : Table Text Int) (c : Command) : Option (List UInt8) :=
  match Operand.classifyAll c.operands with
  | .error _ => none
  | .ok ops =>
    if c.mnemonic.upper = InstructionSet.data then
      match ops with
      | [op] => op.data? labels
      | _ => none
    else
      match select c.mnemonic (Operand.kindAt ops 0) (Operand.kindAt ops 1),
          ops.mapM (Operand.byte? labels) with
      | .ok enc, some bytes =>
        if arity? c.mnemonic = some bytes.length then some (enc.opcode :: bytes) else none
      | _, _ => none

def Line.encode? (labels : Table Text Int) (line : Line) : Option (List UInt8) :=
  match line.command with
  | none => some []
  | some c => c.encode? labels

-- A label with an offset that fits a byte.
def Layout.Resolves (labels : Table Text Int) (name : Text) : Prop :=
  ∃ offset, labels.find? name = some offset ∧ 0 ≤ offset ∧ offset ≤ 255

variable {labels : Table Text Int} {op : Operand} {ops : List Operand} {c : Command}
  {s : Statement}

theorem Operand.byte?_eq_slot_value (h : ∀ name ∈ op.slot.label?, Layout.Resolves labels name) :
    op.byte? labels = some (op.slot.value labels) := by
  unfold byte? slot at *
  cases hl : op.label
  case none => rfl
  case some name =>
    simp only [hl] at h
    have ⟨offset, hf, ho⟩ := h name rfl
    simp [Slot.value, hf, ho]

theorem Operand.mapM_byte?_eq
    (h : ∀ name ∈ (ops.map slot).filterMap Slot.label?, Layout.Resolves labels name) :
    ops.mapM (byte? labels) = some ((ops.map slot).map (Slot.value labels)) := by
  induction ops
  case nil => rfl
  case cons op ops hi =>
    have h₁ : ∀ name ∈ op.slot.label?, Layout.Resolves labels name := by
      intro name hn
      exact h name (List.mem_filterMap.mpr ⟨op.slot, List.mem_cons_self, hn⟩)
    have h₂ : ∀ name ∈ (ops.map slot).filterMap Slot.label?, Layout.Resolves labels name := by
      intro name hn
      have ⟨slot, hs, hl⟩ := List.mem_filterMap.mp hn
      exact h name (List.mem_filterMap.mpr ⟨slot, List.mem_cons_of_mem _ hs, hl⟩)
    simp [List.mapM_cons, byte?_eq_slot_value h₁, hi h₂]

theorem Operand.data?_eq (hk : op.kind = .number ∨ op.kind = .numbers)
    (h : ∀ name ∈ (Statement.data op).slots.filterMap Slot.label?, Layout.Resolves labels name) :
    op.data? labels = some ((Statement.data op).slots.map (Slot.value labels)) := by
  unfold data?
  cases hk
  case inl hk =>
    have hb : op.byte? labels = some (op.slot.value labels) := by
      refine byte?_eq_slot_value fun name hn => h name ?_
      simpa [Statement.slots, hk] using hn
    simp [hk, hb, Statement.slots]
  case inr hk => simp [hk, Statement.slots, Function.comp_def, Slot.value]

theorem Command.encode?_of_fits (hf : c.Fits s)
    (h : ∀ name ∈ s.slots.filterMap Slot.label?, Layout.Resolves labels name) :
    c.encode? labels = some (s.slots.map (Slot.value labels)) := by
  cases hf
  case data m raw op hd hc hk =>
    have ha : Operand.classifyAll [raw] = .ok [op] := by simp [Operand.classifyAll, hc]
    simp only [encode?, ha, if_pos hd]
    exact Operand.data?_eq hk h
  case instruction m raws ops enc hd hc hn he =>
    have ha := Operand.classifyAll_eq_ok_iff.mpr hc
    have hb : ops.mapM (Operand.byte? labels) =
        some ((ops.map Operand.slot).map (Slot.value labels)) :=
      Operand.mapM_byte?_eq h
    simp only [encode?, ha, if_neg hd, he, hb, List.length_map, if_pos hn]
    rfl

namespace Draft

variable {asm : Assembler} {d : Draft} {raws : List Text} {lines : List Line}

theorem Run.offset_nonneg (r : Run asm 0 raws lines {} d) {name : Text} {offset : Int}
    (h : d.labels.find? name = some offset) : 0 ≤ offset := by
  have hm := Table.find?_eq_some_iff.mp h
  rw [r.labels_eq] at hm
  have ⟨i, _, _, _, ho⟩ := Layout.mem_labels_iff.mp hm
  omega

theorem Run.encode?_eq (r : Run asm 0 raws lines {} d)
    (h : ∀ name ∈ Layout.references lines, Layout.fault? d.labels name = none) :
    ∀ line ∈ lines, line.encode? d.labels = some (line.slots.map (Slot.value d.labels)) := by
  intro line hl
  unfold Line.encode?
  cases hc : line.command
  case none => simp [Line.slots_of_no_command hc]
  case some c =>
    have ⟨s, hs, hf⟩ := r.fits line hl c hc
    rw [Line.slots_of_statement hc hs]
    refine Command.encode?_of_fits hf fun name hn => ?_
    have ⟨slot, hm, hn⟩ := List.mem_filterMap.mp hn
    have hm : slot ∈ Layout.slots lines :=
      List.mem_flatMap.mpr ⟨line, hl, Line.slots_of_statement hc hs ▸ hm⟩
    have ⟨offset, ho, hf⟩ := Layout.fault?_eq_none_iff.mp <|
      h name (List.mem_filterMap.mpr ⟨slot, hm, hn⟩)
    exact ⟨offset, hf, r.offset_nonneg hf, ho⟩

end Draft

-- The code that the two passes leave is the code of the lines under the final table of labels.
theorem Assembler.code_eq_flatten_encode (asm : Assembler) (source : Source) (p : Program)
    (h : asm.assemble source = .ok p) :
    ∃ (texts : List Text) (lines : List Line) (codes : List (List UInt8)),
      Layout.Reading asm p.labels (Source.lines source.text) texts lines ∧
      lines.map (Line.encode? p.labels) = codes.map some ∧
      p.code = codes.flatten ∧
      ∀ name offset, p.labels.find? name = some offset ↔
        ∃ i line, lines[i]? = some line ∧ line.label = some name ∧
          offset = (codes.take i).flatten.length := by
  have ⟨lines, d, r, _, hr, hp⟩ := assemble_eq_ok_iff.mp h
  have ⟨texts, hread⟩ := r.reading
  subst hp
  let code (line : Line) := line.slots.map (Slot.value d.labels)
  refine ⟨texts, lines, lines.map code, hread, ?_, ?_, fun name offset => ?_⟩
  case refine_1 =>
    rw [List.map_map]
    exact List.map_congr_left (r.encode?_eq hr)
  case refine_2 => exact List.map_flatMap ..
  case refine_3 =>
    have hlen (above : List Line) :
        (above.map code).flatten.length = (Layout.slots above).length := by
      rw [←List.length_map (Slot.value d.labels), Layout.slots, List.map_flatMap]
      rfl
    show d.labels.find? name = some offset ↔ _
    rw [Table.find?_eq_some_iff, r.labels_eq, Layout.mem_labels_iff]
    simp only [←List.map_take, hlen, Int.natCast_zero, Int.zero_add]

-- References forward, backward and to the own line, data, and an expression with a constant.
theorem Assembler.code_eq_flatten_encode_of_references :
    let asm : Assembler := { predefines := .ofEntries [(Text.ofString "N", Text.ofString "0x10")] }
    let source : Source := { text := Text.ofString ("start: MOV A, end\nself: JMP self\n" ++
      "MOV [start], $(N + LINENO)\nDB \"hi\"\nDB end\nend: HLT\n") }
    ∃ p, asm.assemble source = .ok p ∧ p.code = [6, 0, 11, 31, 3, 7, 0, 18, 104, 105, 11, 0] ∧
      ∃ (lines : List Line) (codes : List (List UInt8)),
        lines.map (Line.encode? p.labels) = codes.map some ∧ p.code = codes.flatten := by
  intro asm source
  have h : (asm.assemble source).toOption.map Program.code =
      some [6, 0, 11, 31, 3, 7, 0, 18, 104, 105, 11, 0] := by decide +kernel
  cases ha : asm.assemble source
  case error => simp [ha, Except.toOption] at h
  case ok p =>
    obtain ⟨_, lines, codes, _, he, hc, _⟩ := code_eq_flatten_encode asm source p ha
    exact ⟨p, rfl, by simpa [ha, Except.toOption] using h, lines, codes, he, hc⟩

end ByteAsm
