import ByteAsm.Proofs.Linking
import ByteAsm.Proofs.Operands
import ByteAsm.Proofs.Reading

namespace ByteAsm

-- A command that fits has code, which is data exactly under the mnemonic for data.
theorem Command.Fits.slots_ne_nil {c : Command} {s : Statement} (h : c.Fits s) : s.slots ≠ [] := by
  cases h
  case instruction => exact List.cons_ne_nil _ _
  case data hc hk =>
    cases hk
    case inl hk => simp [Statement.slots, hk]
    case inr hk => simpa [Statement.slots, hk] using Operand.values_ne_nil hc hk

theorem Command.Fits.isData_iff {c : Command} {s : Statement} (h : c.Fits s) :
    s.isData ↔ c.mnemonic.upper = InstructionSet.data := by
  cases h
  case data hd _ _ => simpa [Statement.isData] using hd
  case instruction hd _ _ _ => simpa [Statement.isData] using hd

theorem Line.record?_eq_some_iff {labels : Table Text Int} {n ip : Nat} {line : Line} {r : Record} :
    line.record? labels n ip = some r ↔ ∃ c s, line.command = some c ∧ c.statement = .ok s ∧
      r = ⟨n, ip, c.words, s.slots.map (Slot.value labels), s.isData⟩ := by
  unfold record?
  cases line.command
  case none => simp
  case some c => cases hs : c.statement <;> simp [hs, Except.toOption, eq_comm]

-- Records that cut code into pieces, none of them empty. The first piece starts at `ip`.
inductive Record.Tiles : (ip : Nat) → List Record → List UInt8 → Prop
  | nil {ip : Nat} : Tiles ip [] []
  | cons {ip : Nat} {r : Record} {records : List Record} {code : List UInt8} : r.ip = ip →
    r.bytes ≠ [] → (Tiles (ip + r.bytes.length) records code) →
    Tiles ip (r :: records) (r.bytes ++ code)

namespace Layout

variable {labels : Table Text Int} {n ip : Nat} {line : Line} {lines : List Line} {r : Record}

-- The bytes of a record are those of the slots of its line, and a line without one has no slots.
theorem bytes_record? (labels : Table Text Int) (n ip : Nat) (line : Line) :
    (line.record? labels n ip).toList.flatMap Record.bytes =
      line.slots.map (Slot.value labels) := by
  unfold Line.record? Line.slots Line.statement?
  cases line.command
  case none => rfl
  case some c => cases hs : c.statement <;> simp [hs, Except.toOption]

theorem bytes_records (labels : Table Text Int) (n ip : Nat) (lines : List Line) :
    (records labels n ip lines).flatMap Record.bytes = (slots lines).map (Slot.value labels) := by
  induction lines generalizing n ip
  case nil => rfl
  case cons line lines hi =>
    rw [records, List.flatMap_append, bytes_record?, hi, slots_cons, List.map_append]

-- A record starts where the code of the lines above its line ends.
theorem mem_records_iff : r ∈ records labels n ip lines ↔
    ∃ (i : Nat) (line : Line), lines[i]? = some line ∧
      line.record? labels (n + i) (ip + (slots (lines.take i)).length) = some r := by
  induction lines generalizing n ip
  case nil => simp [records]
  case cons line lines hi =>
    simp only [records, List.mem_append, hi]
    constructor
    case mp =>
      rintro (h | ⟨i, line', hl, h⟩)
      case inl => exact ⟨0, line, rfl, by simpa [slots] using h⟩
      case inr =>
        refine ⟨i + 1, line', hl, ?_⟩
        rwa [List.take_succ_cons, slots_cons, List.length_append, ←Nat.add_assoc ip,
          Nat.add_comm i, ←Nat.add_assoc n]
    case mpr =>
      rintro ⟨i, line', hl, h⟩
      cases i
      case zero =>
        cases hl
        exact .inl (by simpa [slots] using h)
      case succ i =>
        refine .inr ⟨i, line', hl, ?_⟩
        rwa [List.take_succ_cons, slots_cons, List.length_append, ←Nat.add_assoc ip,
          Nat.add_comm i, ←Nat.add_assoc n] at h

theorem records_append (labels : Table Text Int) (n ip : Nat) (lines₁ lines₂ : List Line) :
    records labels n ip (lines₁ ++ lines₂) = records labels n ip lines₁ ++
      records labels (n + lines₁.length) (ip + (slots lines₁).length) lines₂ := by
  induction lines₁ generalizing n ip
  case nil => rfl
  case cons line lines₁ hi =>
    simp [records, slots_cons, hi, Nat.add_assoc, Nat.add_comm 1]

theorem ip_record (lines : List Line) {before after : List Record}
    (h : records labels n ip lines = before ++ r :: after) :
    r.ip = ip + (before.flatMap Record.bytes).length := by
  induction lines generalizing n ip before
  case nil => simp [records] at h
  case cons line lines hi =>
    have hb := congrArg List.length (bytes_record? labels n ip line)
    rw [List.length_map] at hb
    rw [records] at h
    cases hr : line.record? labels n ip
    case none =>
      rw [hr] at h hb
      rw [hi h, ←hb]
      simp
    case some r₀ =>
      rw [hr] at h hb
      obtain ⟨_, _, _, _, he⟩ := Line.record?_eq_some_iff.mp hr
      cases before
      case nil =>
        cases h
        simp [he]
      case cons b before =>
        obtain ⟨h₀, h⟩ := List.cons.inj h
        rw [hi h, ←hb, h₀]
        simp [Int.add_assoc]

theorem le_of_mem_records (h : r ∈ records labels n ip lines) :
    (n : Int) ≤ r.line ∧ (ip : Int) ≤ r.ip := by
  have ⟨i, _, _, h⟩ := mem_records_iff.mp h
  have ⟨_, _, _, _, he⟩ := Line.record?_eq_some_iff.mp h
  simp only [he]
  omega

theorem pairwise_records (labels : Table Text Int) (n ip : Nat) (lines : List Line) :
    (records labels n ip lines).Pairwise fun r r' => r.line < r'.line := by
  induction lines generalizing n ip
  case nil => exact .nil
  case cons line lines hi =>
    refine List.pairwise_append.mpr ⟨?_, hi .., fun r hr r' hr' => ?_⟩
    case refine_1 => cases line.record? labels n ip <;> simp
    case refine_2 =>
      have ⟨_, _, _, _, he⟩ := Line.record?_eq_some_iff.mp (Option.mem_toList.mp hr)
      have hle := (le_of_mem_records hr').left
      simp only [he]
      omega

theorem Reading.isAscii_mnemonic {asm : Assembler} {raws texts : List Text} {c : Command}
    (h : Reading asm labels raws texts lines) (hl : line ∈ lines) (hc : line.command = some c) :
    c.mnemonic.isAscii := by
  have hm : .ok line ∈ texts.map Line.read := h.reads ▸ List.mem_map_of_mem hl
  have ⟨text, _, hr⟩ := List.mem_map.mp hm
  exact Line.isAscii_mnemonic (Line.written_of_read hr) hc

end Layout

namespace Draft

variable {asm : Assembler} {d d' : Draft} {n : Nat} {raw : Text} {raws : List Text} {line : Line}
  {lines : List Line} {labels : Table Text Int} {r : Record}

theorem Step.tiles {ip : Nat} {records : List Record} {code : List UInt8}
    (st : Step asm n raw line d d') (h : Record.Tiles (ip + line.slots.length) records code) :
    Record.Tiles ip ((line.record? labels n ip).toList ++ records)
      (line.slots.map (Slot.value labels) ++ code) := by
  cases hc : line.command
  case none => simpa [Line.record?, hc, Line.slots_of_no_command hc] using h
  case some c =>
    have ⟨s, hs, hf⟩ := st.fits hc
    rw [Line.slots_of_statement hc hs] at h ⊢
    rw [Line.record?_eq_some_iff.mpr ⟨c, s, hc, hs, rfl⟩]
    exact .cons rfl (by simpa using hf.slots_ne_nil) (by simpa using h)

theorem Run.tiles (hr : Run asm n raws lines d d') (labels : Table Text Int) (ip : Nat) :
    Record.Tiles ip (Layout.records labels n ip lines)
      ((Layout.slots lines).map (Slot.value labels)) := by
  induction hr generalizing ip
  case refl => exact .nil
  case step st _ hi =>
    rw [Layout.records, Layout.slots_cons, List.map_append]
    exact st.tiles (hi _)

theorem Run.tiles_program (hr : Run asm 0 raws lines {} d) (labels : Table Text Int) :
    Record.Tiles 0 (Layout.program labels lines).records (Layout.program labels lines).code :=
  Layout.program_records labels lines ▸ hr.tiles labels 0

-- The records of lines that were added, each with the line it comes from.
theorem Run.mem_records (hr : Run asm 0 raws lines {} d) (h : r ∈ Layout.records labels 0 0 lines) :
    ∃ (i : Nat) (line : Line) (c : Command) (s : Statement), lines[i]? = some line ∧
      line.command = some c ∧ c.Fits s ∧ r.line = i ∧ r.words = c.words ∧
      r.bytes = s.slots.map (Slot.value labels) ∧ r.data = s.isData := by
  have ⟨i, line, hl, h⟩ := Layout.mem_records_iff.mp h
  have ⟨c, s, hc, hs, he⟩ := Line.record?_eq_some_iff.mp h
  have ⟨s', hs', hf⟩ := hr.fits line (List.mem_of_getElem? hl) c hc
  cases hs ▸ hs'
  exact ⟨i, line, c, s, hl, hc, hf, by simp [he], by simp [he], by simp [he], by simp [he]⟩

theorem Run.exists_record_iff (hr : Run asm 0 raws lines {} d) {i : Nat}
    (hl : lines[i]? = some line) :
    (∃ r ∈ Layout.records labels 0 0 lines, r.line = i) ↔ line.command.isSome := by
  constructor
  case mp =>
    intro ⟨r, hm, hi⟩
    have ⟨j, line', c, _, hl', hc, _, hj, _⟩ := hr.mem_records hm
    cases Int.ofNat_inj.mp (hi.symm.trans hj)
    cases hl ▸ hl'
    exact hc ▸ rfl
  case mpr =>
    intro h
    have ⟨c, hc⟩ := Option.isSome_iff_exists.mp h
    have ⟨s, hs, _⟩ := hr.fits line (List.mem_of_getElem? hl) c hc
    have hm : _ ∈ Layout.records labels 0 0 lines := Layout.mem_records_iff.mpr
      ⟨i, line, hl, Line.record?_eq_some_iff.mpr ⟨c, s, hc, hs, rfl⟩⟩
    exact ⟨_, hm, by simp⟩

end Draft

namespace Assembler

-- Each line with a mnemonic has one record, and the records cut the code without gap or overlap.
theorem records_tile_code (asm : Assembler) (source : Source) (p : Program)
    (h : asm.assemble source = .ok p) :
    p.records.flatMap Record.bytes = p.code ∧
    (∀ before r after, p.records = before ++ r :: after →
      r.ip = (before.flatMap Record.bytes).length) ∧
    (∀ r ∈ p.records, r.bytes ≠ [] ∧ r.words ≠ []) ∧
    p.records.Pairwise (fun r r' => r.line < r'.line) ∧
    ∃ (texts : List Text) (lines : List Line),
      Layout.Reading asm p.labels (Source.lines source.text) texts lines ∧
      (∀ (i : Nat) (line : Line), lines[i]? = some line →
        ((∃ r ∈ p.records, r.line = i) ↔ line.command.isSome)) ∧
      ∀ r ∈ p.records, ∃ (i : Nat) (line : Line) (c : Command),
        r.line = i ∧ lines[i]? = some line ∧ line.command = some c ∧
        r.words = c.mnemonic :: c.operands ∧
        (r.data ↔ c.mnemonic.map Byte.upper = InstructionSet.data) := by
  have ⟨lines, d, hr, _, _, hp⟩ := assemble_eq_ok_iff.mp h
  have ⟨texts, hread⟩ := hr.reading
  have hrec : p.records = Layout.records d.labels 0 0 lines := hp ▸ Layout.program_records ..
  rw [hrec, hp]
  refine ⟨Layout.bytes_records .., fun before r after he => ?_, fun r hm => ?_,
    Layout.pairwise_records .., texts, lines, hread, fun i line hl => hr.exists_record_iff hl,
    fun r hm => ?_⟩
  case refine_1 => simpa using Layout.ip_record lines he
  case refine_2 =>
    have ⟨_, _, c, s, _, _, hf, _, hw, hb, _⟩ := hr.mem_records hm
    rw [hw, hb]
    exact ⟨by simpa using hf.slots_ne_nil, List.cons_ne_nil _ _⟩
  case refine_3 =>
    have ⟨i, line, c, s, hl, hc, hf, hi, hw, _, hd⟩ := hr.mem_records hm
    have ha := hread.isAscii_mnemonic (List.mem_of_getElem? hl) hc
    refine ⟨i, line, c, hi, hl, hc, hw, ?_⟩
    rw [hd, hf.isData_iff, Text.upper_of_isAscii ha]

-- A label on a line of its own and a comment have no record, and a lower-case mnemonic is data too.
theorem records_tile_code_of_listing :
    let source : Source :=
      { text := Text.ofString "start:\n; text\ndb \"hi\"\nJMP end\nDb end\nend: HLT\n" }
    ∃ p, assemble {} source = .ok p ∧ p.records.map Record.line = [2, 3, 4, 5] ∧
      p.records.map Record.data = [true, false, true, false] ∧
      p.records.flatMap Record.bytes = [104, 105, 31, 5, 5, 0] ∧
      p.records.flatMap Record.bytes = p.code := by
  intro source
  have h : (assemble {} source).toOption.map (fun p => (p.records.map Record.line,
      p.records.map Record.data, p.records.flatMap Record.bytes)) =
      some ([2, 3, 4, 5], [true, false, true, false], [104, 105, 31, 5, 5, 0]) := by
    decide +kernel
  cases ha : assemble {} source
  case error => simp [ha, Except.toOption] at h
  case ok p =>
    simp only [ha, Except.toOption, Option.map_some, Option.some.injEq, Prod.mk.injEq] at h
    have hc := (records_tile_code {} source p ha).left
    exact ⟨p, rfl, h.left, h.right.left, h.right.right, hc⟩

end Assembler

end ByteAsm
