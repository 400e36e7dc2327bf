import ByteAsm.Proofs.Outcome
import ByteAsm.Proofs.Tiling

namespace ByteAsm

theorem Line.isLabel_label {value? : Text → Option Int} {t name : Text} {line : Line}
    (h : readIn value? t = .ok line) (hl : line.label = some name) : Word.isLabel name := by
  have ⟨_, _, hr⟩ := readIn_eq_ok h
  exact isLabel_of_read hr hl

-- The offset of the first record that comes from a line or one below it, or the end of the code.
def Program.startOf (p : Program) (line : Int) : Int :=
  ((p.records.find? fun r => line ≤ r.line).map Record.ip).getD p.code.length

namespace Draft

-- Line `i` has a label, and the lines above it pass. Whether the label is still free is open.
inductive Defines (asm : Assembler) : List Text → (i : Nat) → (name : Text) → Prop
  | mk {above below : List Text} {raw name : Text} {lines : List Line} {d : Draft} {line : Line} :
    (Run asm 0 above lines {} d) → raw.length < Source.lineLimit →
    Line.readIn (d.value? asm above.length) (Source.content raw) = .ok line →
    line.label = some name → Defines asm (above ++ raw :: below) above.length name

-- Names that are spelled like labels and are not reserved.
structure NamesFree (labels : Table Text Int) : Prop where
  spelled : ∀ entry ∈ labels.entries, Word.isLabel entry.1
  free    : ∀ entry ∈ labels.entries, entry.1.upper ∉ reserved

variable {asm : Assembler} {d d' : Draft} {n i j : Nat} {raw name name' : Text} {line : Line}
  {raws more above below : List Text} {lines : List Line}

namespace Coherent

theorem find?_normalized (h : d.Coherent) {offset : Int}
    (hf : d.labels.find? name = some offset) : d.normalized.find? name.upper = some name := by
  rw [Table.find?_eq_some_iff, h.normalized]
  exact List.mem_map.mpr ⟨_, Table.find?_eq_some_iff.mp hf, rfl⟩

-- A spelling in upper case leads to one name only.
theorem apart (h : d.Coherent) {offset offset' : Int} (hf : d.labels.find? name = some offset)
    (hf' : d.labels.find? name' = some offset') (hu : name.upper = name'.upper) : name = name' := by
  have hn := h.find?_normalized hf
  rw [hu, h.find?_normalized hf'] at hn
  exact (Option.some.inj hn).symm

theorem define_eq_error (h : d.Coherent) {offset : Int} (hf : d.labels.find? name = some offset)
    (hu : name.upper = name'.upper) : d.define name' = .error (.duplicateLabel name') := by
  simp [define, ←hu, h.find?_normalized hf]

end Coherent

theorem NamesFree.define (h : NamesFree d.labels) (hn : Word.isLabel name)
    (hd : d.define name = .ok d') : NamesFree d'.labels := by
  have ⟨_, hfree, he⟩ := define_eq_ok_iff.mp hd
  subst he
  constructor <;> intro entry hm <;> rcases Table.mem_insert.mp hm with ⟨he, _⟩ | ⟨_, hm⟩
  case spelled.inl => rwa [he]
  case spelled.inr => exact h.spelled entry hm
  case free.inl => rwa [he]
  case free.inr => exact h.free entry hm

theorem labels_of_add (h : d.add n line = .ok d') :
    ∃ d₁, d.defineAny line.label = .ok d₁ ∧ d'.labels = d₁.labels := by
  have ⟨d₁, hd, h⟩ := add_eq_ok_iff.mp h
  refine ⟨d₁, hd, ?_⟩
  rcases h with ⟨_, he⟩ | ⟨c, s, _, _, he⟩
  case inl => rw [he]
  case inr => rw [he, place_eq]

theorem Step.namesFree (st : Step asm n raw line d d') (h : NamesFree d.labels) :
    NamesFree d'.labels := by
  have ⟨d₁, hd, he⟩ := labels_of_add st.adds
  rw [he]
  cases hl : line.label
  case none =>
    rw [hl] at hd
    cases hd
    exact h
  case some name =>
    rw [hl] at hd
    exact h.define (Line.isLabel_label st.reads hl) hd

theorem Run.namesFree (r : Run asm n raws lines d d') (h : NamesFree d.labels) :
    NamesFree d'.labels := by
  induction r
  case refl => exact h
  case step st _ hi => exact hi (st.namesFree h)

theorem namesFree_empty : NamesFree (∅ : Table Text Int) where
  spelled := nofun
  free    := nofun

theorem Run.exists_step (r : Run asm 0 (above ++ raw :: below) lines {} d) :
    ∃ lines₁ line d₁ d₂, Run asm 0 above lines₁ {} d₁ ∧ Step asm above.length raw line d₁ d₂ ∧
      lines[above.length]? = some line := by
  have ⟨lines₁, lines₂, d₁, he, r₁, r₂⟩ := r.split
  cases r₂
  case step line d₂ lines₂ st _ =>
    rw [Nat.zero_add] at st
    exact ⟨lines₁, line, d₁, d₂, r₁, st, by simp [he, ←r₁.length_eq]⟩

-- Once all lines have passed, the labels of the lines are what they define.
theorem Run.defines_iff (r : Run asm 0 raws lines {} d) :
    Defines asm raws i name ↔ ∃ line, lines[i]? = some line ∧ line.label = some name := by
  constructor
  case mp =>
    intro h
    cases h
    case mk line r' _ hread hl =>
      have ⟨lines₁, line', d₁, d₂, r₁, st, hi⟩ := r.exists_step
      have ⟨_, hd⟩ := r₁.deterministic r'
      subst hd
      cases st.reads.symm.trans hread
      exact ⟨line, hi, hl⟩
  case mpr =>
    intro ⟨line, hi, hl⟩
    have hlt : i < raws.length := r.length_eq ▸ (List.getElem?_eq_some_iff.mp hi).1
    have ⟨above, raw, below, he, hlen⟩ : ∃ above raw below, raws = above ++ raw :: below ∧
        above.length = i :=
      ⟨raws.take i, raws[i], raws.drop (i + 1), by simp, List.length_take_of_le (by omega)⟩
    subst he hlen
    have ⟨lines₁, line', d₁, d₂, r₁, st, hi'⟩ := r.exists_step
    cases hi.symm.trans hi'
    exact .mk r₁ st.short st.reads hl

theorem Defines.lt_length (h : Defines asm raws i name) : i < raws.length := by
  cases h
  simp

-- Only the lines down to the one with the label matter.
theorem Defines.of_append (h : Defines asm (raws ++ more) i name) (hi : i < raws.length) :
    Defines asm raws i name := by
  generalize he : raws ++ more = raws' at h
  cases h
  case mk above below raw lines d line r hs hread hl =>
    rcases List.append_eq_append_iff.mp he with ⟨rest, ha, _⟩ | ⟨rest, hr, hrest⟩
    case inl =>
      rw [ha, List.length_append] at hi
      omega
    case inr =>
      cases rest
      case nil =>
        rw [hr, List.append_nil] at hi
        omega
      case cons raw' rest =>
        cases (List.cons.inj hrest).left
        exact hr ▸ .mk r hs hread hl

theorem Defines.rejects (h : Defines asm raws i name) (h' : Defines asm raws j name') (hij : i < j)
    (hu : name.upper = name'.upper) :
    ∃ raw, raws[j]? = some raw ∧
      Rejects asm raws j (Source.content raw) (.duplicateLabel name') := by
  cases h'
  case mk above below raw lines d line r hs hread hl =>
    refine ⟨raw, by simp, .fault r hs ?_⟩
    -- The first of the two lines is above the second, so its label is in the table by then.
    have ⟨line₁, hl₁, hn⟩ := r.defines_iff.mp (h.of_append hij)
    have hd := (r.coherent .empty).define_eq_error (r.find?_of_label hl₁ hn) hu
    simp only [addLine_eq, hread, add, hl, defineAny, hd]

end Draft

namespace Layout

variable {labels : Table Text Int} {n ip i j : Nat} {lines : List Line} {r : Record}

theorem line_lt_of_mem_records (h : r ∈ records labels n ip lines) :
    r.line < n + lines.length := by
  have ⟨i, line, hl, h⟩ := mem_records_iff.mp h
  have ⟨_, _, _, _, he⟩ := Line.record?_eq_some_iff.mp h
  have ⟨hlt, _⟩ := List.getElem?_eq_some_iff.mp hl
  simp only [he]
  omega

theorem stop_le_of_mem_records (h : r ∈ records labels n ip lines) :
    r.ip + r.bytes.length ≤ ip + (slots lines).length := by
  induction lines generalizing n ip
  case nil => contradiction
  case cons line lines hi =>
    rw [slots_cons, List.length_append]
    cases List.mem_append.mp h
    case inl h =>
      have hr := Option.mem_toList.mp h
      have hb := congrArg List.length (bytes_record? labels n ip line)
      have ⟨_, _, _, _, he⟩ := Line.record?_eq_some_iff.mp hr
      have hip : r.ip = ip := by rw [he]
      simp only [hr, Option.toList_some, List.flatMap_singleton, List.length_map] at hb
      omega
    case inr h =>
      have := hi h
      omega

-- Lines without a record have no code, so the first record starts where the code of all lines does.
theorem ip_head_records (labels : Table Text Int) (n ip : Nat) (lines : List Line) :
    ((records labels n ip lines).head?.map Record.ip).getD
      ((ip + (slots lines).length : Nat) : Int) = ip := by
  induction lines generalizing n ip
  case nil => simp [records, slots]
  case cons line lines hi =>
    rw [records]
    cases hr : line.record? labels n ip
    case none =>
      have hb := congrArg List.length (bytes_record? labels n ip line)
      rw [hr, List.length_map] at hb
      have h := hi (n + 1) (ip + line.slots.length)
      rw [←hb] at h
      simpa [slots_cons, ←hb] using h
    case some r =>
      obtain ⟨_, _, _, _, he⟩ := Line.record?_eq_some_iff.mp hr
      simp [he]

theorem records_program_split (labels : Table Text Int) (hi : i ≤ lines.length) :
    (program labels lines).records = records labels 0 0 (lines.take i) ++
      records labels i (slots (lines.take i)).length (lines.drop i) := by
  have h := records_append labels 0 0 (lines.take i) (lines.drop i)
  rwa [List.take_append_drop, List.length_take_of_le hi, Nat.zero_add, Nat.zero_add,
    ←program_records] at h

theorem length_slots_split (lines : List Line) (i : Nat) : (slots lines).length =
    (slots (lines.take i)).length + (slots (lines.drop i)).length := by
  rw [←List.length_append, ←slots_append, List.take_append_drop]

theorem length_slots_take_le (h : i ≤ j) :
    (slots (lines.take i)).length ≤ (slots (lines.take j)).length := by
  rw [length_slots_split (lines.take j) i, List.take_take, Nat.min_eq_left h]
  exact Nat.le_add_right ..

theorem startOf_program (labels : Table Text Int) (hi : i ≤ lines.length) :
    (program labels lines).startOf i = (slots (lines.take i)).length := by
  have habove : (records labels 0 0 (lines.take i)).find? (fun r => (i : Int) ≤ r.line) = none := by
    refine List.find?_eq_none.mpr fun r hr => ?_
    have hlt := line_lt_of_mem_records hr
    rw [List.length_take_of_le hi] at hlt
    simpa using hlt
  have hbelow : (records labels i (slots (lines.take i)).length (lines.drop i)).find?
        (fun r => (i : Int) ≤ r.line) =
      (records labels i (slots (lines.take i)).length (lines.drop i)).head? := by
    rw [←List.head?_filter, List.filter_eq_self.mpr fun r hr => ?_]
    exact decide_eq_true (le_of_mem_records hr).left
  have hlen : (program labels lines).code.length = (slots lines).length := List.length_map _
  rw [Program.startOf, records_program_split labels hi, List.find?_append, habove, Option.none_or,
    hbelow, hlen, length_slots_split lines i]
  exact ip_head_records ..

theorem outside_of_mem_records (hi : i ≤ lines.length) (hr : r ∈ (program labels lines).records) :
    (slots (lines.take i)).length ≤ r.ip ∨
      r.ip + r.bytes.length ≤ (slots (lines.take i)).length := by
  rw [records_program_split labels hi, List.mem_append] at hr
  cases hr
  case inl hr =>
    have := stop_le_of_mem_records hr
    omega
  case inr hr => exact .inl (le_of_mem_records hr).right

end Layout

-- The labels of a program of which line `i` defines `name` if `defines i name`.
structure Program.LabelsPlaced (p : Program) (defines : Nat → Text → Prop) : Prop where
  spelled   : ∀ name offset, p.labels.find? name = some offset → Word.isLabel name
  free      : ∀ name offset, p.labels.find? name = some offset → name.upper ∉ Draft.reserved
  apart     : ∀ name name' offset offset', p.labels.find? name = some offset →
    p.labels.find? name' = some offset' → name.upper = name'.upper → name = name'
  placed    : ∀ name offset, p.labels.find? name = some offset ↔
    ∃ i : Nat, defines i name ∧ offset = p.startOf i
  outside   : ∀ name offset, p.labels.find? name = some offset →
    ∀ r ∈ p.records, offset ≤ r.ip ∨ r.ip + r.bytes.length ≤ offset
  ascending : ∀ i j name name' offset offset', defines i name → defines j name' → i ≤ j →
    p.labels.find? name = some offset → p.labels.find? name' = some offset' → offset ≤ offset'

namespace Draft

variable {asm : Assembler} {d : Draft} {raws : List Text} {lines : List Line} {name : Text}
  {offset : Int}

theorem Run.find?_labels_iff (r : Run asm 0 raws lines {} d) : d.labels.find? name = some offset ↔
    ∃ i : Nat, Defines asm raws i name ∧ offset = (Layout.slots (lines.take i)).length := by
  rw [Table.find?_eq_some_iff, r.labels_eq, Layout.mem_labels_iff]
  simp only [r.defines_iff, Int.natCast_zero, Int.zero_add]
  constructor
  case mp => exact fun ⟨i, line, hi, hl, ho⟩ => ⟨i, ⟨line, hi, hl⟩, ho⟩
  case mpr => exact fun ⟨i, ⟨line, hi, hl⟩, ho⟩ => ⟨i, line, hi, hl, ho⟩

theorem Run.labelsPlaced (r : Run asm 0 raws lines {} d) :
    (Layout.program d.labels lines).LabelsPlaced (Defines asm raws) := by
  have ha := r.namesFree namesFree_empty
  have hle {i : Nat} {name : Text} (h : Defines asm raws i name) : i ≤ lines.length :=
    r.length_eq ▸ Nat.le_of_lt h.lt_length
  constructor
  case spelled => exact fun name offset h => ha.spelled _ (Table.find?_eq_some_iff.mp h)
  case free => exact fun name offset h => ha.free _ (Table.find?_eq_some_iff.mp h)
  case apart =>
    intro name name' offset offset' h h' hu
    exact (r.coherent .empty).apart h h' hu
  case placed =>
    intro name offset
    refine r.find?_labels_iff.trans (exists_congr fun i => and_congr_right fun h => ?_)
    rw [Layout.startOf_program d.labels (hle h)]
  case outside =>
    intro name offset h record hr
    have ⟨i, hd, ho⟩ := r.find?_labels_iff.mp h
    exact ho ▸ Layout.outside_of_mem_records (hle hd) hr
  case ascending =>
    intro i j name name' offset offset' hi hj hij h h'
    cases (r.find?_labels_iff.mpr ⟨i, hi, rfl⟩).symm.trans h
    cases (r.find?_labels_iff.mpr ⟨j, hj, rfl⟩).symm.trans h'
    exact Int.ofNat_le.mpr (Layout.length_slots_take_le hij)

end Draft

namespace Assembler

open Draft (Defines Run)

theorem labels_placed_at_records (asm : Assembler) (source : Source) :
    (∀ p, asm.assemble source = .ok p →
      p.LabelsPlaced (Defines asm (Source.lines source.text))) ∧
    (∀ i j name name', Defines asm (Source.lines source.text) i name →
      Defines asm (Source.lines source.text) j name' → i < j → name.upper = name'.upper →
      ∃ raw, (Source.lines source.text)[j]? = some raw ∧
        asm.assemble source = .error (.onLine j (Source.content raw) (.duplicateLabel name'))) ∧
    ∀ k lines d, Run asm 0 ((Source.lines source.text).take k) lines {} d → d.Coherent := by
  refine ⟨fun p h => ?_, fun i j name name' hi hj hij hu => ?_, fun k lines d r => ?_⟩
  case refine_1 =>
    have ⟨lines, d, r, _, _, hp⟩ := assemble_eq_ok_iff.mp h
    exact hp ▸ r.labelsPlaced
  case refine_2 =>
    have ⟨raw, hraw, hr⟩ := hi.rejects hj hij hu
    exact ⟨raw, hraw, assemble_of_outcome (.rejected hr)⟩
  case refine_3 => exact r.coherent .empty

-- Labels on lines of their own at both ends of the code, and a name that is taken in another case.
theorem labels_placed_at_records_of_listings :
    let source : Source :=
      { text := Text.ofString "start:\nfirst: DB \"hi\"\n; text\nloop: JMP end\nend:\n" }
    let source' : Source := { text := Text.ofString "Loop: HLT\nDB 1\nlOOP: HLT" }
    (∃ p, assemble {} source = .ok p ∧ p.LabelsPlaced (Defines {} (Source.lines source.text)) ∧
      p.labels.entries = [(Text.ofString "start", 0), (Text.ofString "first", 0),
        (Text.ofString "loop", 2), (Text.ofString "end", 4)]) ∧
    Defines {} (Source.lines source'.text) 0 (Text.ofString "Loop") ∧
    Defines {} (Source.lines source'.text) 2 (Text.ofString "lOOP") ∧
    assemble {} source' = .error (.onLine 2 (Text.ofString "lOOP: HLT")
      (.duplicateLabel (Text.ofString "lOOP"))) := by
  intro source source'
  have hlines : Source.lines source'.text =
      [Text.ofString "Loop: HLT", Text.ofString "DB 1", Text.ofString "lOOP: HLT"] := by
    decide +kernel
  have h₀ : Defines {} (Source.lines source'.text) 0 (Text.ofString "Loop") := by
    rw [hlines]
    exact .mk .refl (by decide +kernel) (by rfl) rfl
  have h₂ : Defines {} (Source.lines source'.text) 2 (Text.ofString "lOOP") := by
    have hd : (Draft.addLines {} 0 ((Source.lines source'.text).take 2) {}).toOption.isSome := by
      decide +kernel
    cases ha : Draft.addLines {} 0 ((Source.lines source'.text).take 2) {}
    case error => simp [ha, Except.toOption] at hd
    case ok d =>
      obtain ⟨lines, r⟩ := Draft.Run.of_addLines_eq_ok ha
      rw [hlines] at r ⊢
      exact .mk r (by decide +kernel) (by rfl) rfl
  refine ⟨?_, h₀, h₂, ?_⟩
  case refine_1 =>
    have h : (assemble {} source).toOption.map (fun p => p.labels.entries) =
        some [(Text.ofString "start", 0), (Text.ofString "first", 0), (Text.ofString "loop", 2),
          (Text.ofString "end", 4)] := by
      decide +kernel
    cases ha : assemble {} source
    case error => simp [ha, Except.toOption] at h
    case ok p =>
      obtain ⟨hplaced, _⟩ := labels_placed_at_records {} source
      exact ⟨p, rfl, hplaced p ha, by simpa [ha, Except.toOption] using h⟩
  case refine_2 =>
    obtain ⟨_, hdup, _⟩ := labels_placed_at_records {} source'
    obtain ⟨raw, hraw, h⟩ := hdup 0 2 _ _ h₀ h₂ (by decide) (by decide +kernel)
    rw [hlines] at hraw
    cases hraw
    exact h

end Assembler

end ByteAsm
