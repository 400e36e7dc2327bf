import ByteAsm.Proofs.Rendering

namespace ByteAsm

namespace Draft

variable {asm : Assembler} {d : Draft} {n : Nat} {line : Line} {lines : List Line}
  {texts : List Text}

-- A new label is taken, and so is a command that is a statement.
theorem exists_add
    (hf : ∀ name ∈ line.label, d.normalized.find? name.upper = none ∧ name.upper ∉ reserved)
    (hs : ∀ c ∈ line.command, ∃ s, c.statement = .ok s) : ∃ d', d.add n line = .ok d' := by
  have ⟨d₁, hd⟩ : ∃ d₁, d.defineAny line.label = .ok d₁ := by
    cases hl : line.label
    case none => exact ⟨d, rfl⟩
    case some name =>
      have ⟨hfresh, hfree⟩ := hf name hl
      exact ⟨_, define_eq_ok_iff.mpr ⟨hfresh, hfree, rfl⟩⟩
  cases hc : line.command
  case none => exact ⟨d₁, add_eq_ok_iff.mpr ⟨d₁, hd, .inl ⟨hc, rfl⟩⟩⟩
  case some c =>
    have ⟨s, hs⟩ := hs c hc
    exact ⟨_, add_eq_ok_iff.mpr ⟨d₁, hd, .inr ⟨c, s, hc, hs, rfl⟩⟩⟩

-- The label of a line is what adding it defines.
theorem normalized_of_add {d' : Draft} (h : d.add n line = .ok d') :
    d'.normalized.entries.map Prod.fst =
      d.normalized.entries.map Prod.fst ++ line.label.toList.map Text.upper := by
  obtain ⟨d₁, hd, h⟩ := add_eq_ok_iff.mp h
  have hn : d'.normalized = d₁.normalized := by
    rcases h with ⟨_, rfl⟩ | ⟨c, s, _, _, rfl⟩
    case inl => rfl
    case inr => rw [place_eq]
  rw [hn]
  cases hl : line.label
  case none =>
    rw [hl] at hd
    cases hd
    simp
  case some name =>
    rw [hl] at hd
    obtain ⟨hf, _, he⟩ := define_eq_ok_iff.mp hd
    simp [he, Table.entries_insert_of_not_mem (Table.find?_eq_none_iff.mp hf)]

-- The spellings of all labels, those in the draft and those to come, differ in more than case.
theorem Run.exists_of_read (hr : texts.map Line.read = lines.map .ok)
    (ht : ∀ t ∈ texts, t.length < Source.lineLimit)
    (hs : ∀ line ∈ lines, ∀ c ∈ line.command, ∃ s, c.statement = .ok s)
    (hd : (d.normalized.entries.map Prod.fst ++
      (lines.filterMap Line.label).map Text.upper).Nodup)
    (hf : ∀ name ∈ lines.filterMap Line.label, name.upper ∉ reserved) :
    ∃ d', Run asm n texts lines d d' := by
  induction lines generalizing texts d n
  case nil =>
    cases List.map_eq_nil_iff.mp hr
    exact ⟨d, .refl⟩
  case cons line lines hi =>
    have ⟨text, texts', he, hread, hreads⟩ := List.map_eq_cons_iff.mp hr
    subst he
    have ⟨hshort, hshorts⟩ := List.forall_mem_cons.mp ht
    have ⟨hsline, hslines⟩ := List.forall_mem_cons.mp hs
    have hlabels : (line :: lines).filterMap Line.label =
        line.label.toList ++ lines.filterMap Line.label := by
      cases hl : line.label <;> simp [hl]
    rw [hlabels] at hf
    rw [hlabels, List.map_append] at hd
    have ⟨hfline, hflines⟩ := List.forall_mem_append.mp hf
    have ⟨d₁, ha⟩ : ∃ d₁, d.add n line = .ok d₁ := by
      refine exists_add (fun name hn => ⟨Table.find?_eq_none_iff.mpr fun hm => ?_, ?_⟩) hsline
      case refine_1 =>
        refine (List.nodup_append.mp hd).right.right _ hm _ (List.mem_append_left _ ?_) rfl
        exact List.mem_map_of_mem (Option.mem_toList.mpr hn)
      case refine_2 => exact hfline name (Option.mem_toList.mpr hn)
    have hd₁ : (d₁.normalized.entries.map Prod.fst ++
        (lines.filterMap Line.label).map Text.upper).Nodup := by
      rwa [normalized_of_add ha, List.append_assoc]
    have ⟨d', r⟩ := hi (n := n + 1) hreads hshorts hslines hd₁ hflines
    exact ⟨d', .step ⟨hshort, Line.readIn_content hread _, ha⟩ r⟩

end Draft

namespace Abstract

section

variable {labels : Table Text Int} {offset : Text → Nat} {items : List Item}

def Body.slots (b : Body) : List Slot :=
  b.statement?.elim [] Statement.slots

theorem Item.Ready.slots_line {item : Item} (h : item.Ready) :
    item.line.slots = item.body.slots := by
  rw [Line.slots, h.statement, Body.slots]

theorem Argument.label?_slot (a : Argument) : a.operand.slot.label?.toList = a.labels := by
  cases a
  case register => rfl
  case indirect => rfl
  case address v => cases v <;> rfl
  case number v => cases v <;> rfl

theorem Argument.value_slot (a : Argument)
    (h : ∀ name ∈ a.labels, labels.find? name = some (offset name : Int)) :
    a.operand.slot.value labels = a.encode offset := by
  have hv (v : Value) (kind : OperandKind)
      (h : ∀ name ∈ v.labels, labels.find? name = some (offset name : Int)) :
      (v.operand kind).slot.value labels = v.encode offset := by
    cases v
    case byte => rfl
    case label name =>
      have hf := h name List.mem_cons_self
      simp [Value.operand, Operand.slot, Slot.value, hf, Value.encode]
  cases a
  case register => rfl
  case indirect => rfl
  case address v => exact hv v .address h
  case number v => exact hv v .number h

namespace Body

-- The slot of data that is a single byte.
theorem slots_data (s : Spelling InstructionSet.data) (v : Value) :
    (data s v).slots = [(Argument.number v).operand.slot] := by
  cases v <;> rfl

theorem length_slots (b : Body) : b.slots.length = b.size := by
  cases b
  case nothing => rfl
  case data s v => rw [slots_data]; rfl
  case string s l => simp [slots, statement?, Statement.slots, size, Literal.bytes]
  case instruction i => simp [slots, statement?, Statement.slots, size, Instruction.operands]

theorem filterMap_slots (b : Body) : b.slots.filterMap Slot.label? = b.labels := by
  cases b
  case nothing => rfl
  case data s v => cases v <;> rfl
  case string s l =>
    simp [slots, statement?, Statement.slots, labels, Function.comp_def, Slot.label?]
  case instruction i =>
    have hs (as : List Argument) : (as.map fun a => a.operand.slot).filterMap Slot.label? =
        as.flatMap Argument.labels := by
      induction as
      case nil => rfl
      case cons a as hi =>
        rw [List.map_cons, List.filterMap_cons, List.flatMap_cons, ←hi, ←a.label?_slot]
        cases a.operand.slot.label? <;> rfl
    have hm : i.operands.map Operand.slot = i.arguments.map fun a => a.operand.slot := by
      simp [Instruction.operands]
    simp only [slots, statement?, Option.elim_some, Statement.slots, hm, labels]
    rw [List.filterMap_cons_none rfl, hs]

theorem map_value_slots (b : Body)
    (h : ∀ name ∈ b.labels, labels.find? name = some (offset name : Int)) :
    b.slots.map (Slot.value labels) = b.encode offset := by
  cases b
  case nothing => rfl
  case data s v =>
    have hv := (Argument.number v).value_slot h
    rw [slots_data, List.map_singleton, hv]
    rfl
  case string s l =>
    simp [slots, statement?, Statement.slots, encode, Function.comp_def, Slot.value]
  case instruction i =>
    have ha : i.operands.map (fun op => op.slot.value labels) =
        i.arguments.map (Argument.encode offset) := by
      rw [Instruction.operands, List.map_map]
      refine List.map_congr_left fun a ha => a.value_slot fun name hn => h name ?_
      exact List.mem_flatMap.mpr ⟨a, ha, hn⟩
    simp only [slots, statement?, Option.elim_some, Statement.slots, List.map_cons, List.map_map,
      Function.comp_def, ha, encode]
    rfl

end Body

theorem labels_lines (h : ∀ item ∈ items, item.Ready) (ip : Nat) :
    Layout.labels ip (items.map Item.line) =
      (offsets ip items).map fun entry => (entry.1, (entry.2 : Int)) := by
  induction items generalizing ip
  case nil => rfl
  case cons item items hi =>
    have ⟨hitem, hitems⟩ := List.forall_mem_cons.mp h
    have hl : item.line.label = item.label := rfl
    rw [List.map_cons, Layout.labels, hitem.slots_line, Body.length_slots, hi hitems, offsets,
      List.map_append, hl]
    cases item.label <;> rfl

theorem slots_lines (h : ∀ item ∈ items, item.Ready) :
    Layout.slots (items.map Item.line) = items.flatMap fun item => item.body.slots := by
  induction items
  case nil => rfl
  case cons item items hi =>
    have ⟨hitem, hitems⟩ := List.forall_mem_cons.mp h
    rw [List.map_cons, Layout.slots_cons, hitem.slots_line, hi hitems, List.flatMap_cons]

theorem references_lines (h : ∀ item ∈ items, item.Ready) :
    Layout.references (items.map Item.line) = referenced items := by
  rw [Layout.references, slots_lines h, List.filterMap_flatMap]
  simp only [Body.filterMap_slots]
  rfl

theorem map_value_lines (h : ∀ item ∈ items, item.Ready)
    (hf : ∀ name ∈ referenced items, labels.find? name = some (offset name : Int)) :
    (Layout.slots (items.map Item.line)).map (Slot.value labels) =
      items.flatMap fun item => item.body.encode offset := by
  rw [slots_lines h, List.map_flatMap, List.flatMap_def, List.flatMap_def]
  congr 1
  refine List.map_congr_left fun item hm => item.body.map_value_slots fun name hn => hf name ?_
  exact List.mem_flatMap.mpr ⟨item, hm, hn⟩

theorem record?_line {item : Item} (h : item.Ready)
    (hf : ∀ name ∈ item.body.labels, labels.find? name = some (offset name : Int)) (n ip : Nat) :
    item.line.record? labels n ip = item.body.command.map fun c =>
      ⟨n, ip, c.words, item.body.encode offset, item.body.isData⟩ := by
  have hv := item.body.map_value_slots hf
  have hs := h.statement
  have hd : ∀ s ∈ item.body.statement?, s.isData = item.body.isData := by
    cases item.body <;> simp [Body.statement?, Statement.isData, Body.isData]
  unfold Line.record? Line.statement? at *
  cases hc : item.body.command
  case none => simp [Item.line, hc]
  case some c =>
    have hl : item.line.command = some c := hc
    obtain ⟨s, hok⟩ := h.accepted c hl
    rw [hl, Option.bind_some, hok] at hs ⊢
    simp only [Body.slots, ←hs, Except.toOption, Option.elim_some] at hv
    simp [Except.toOption, hv, hd s (hs ▸ rfl)]

theorem records_lines (h : ∀ item ∈ items, item.Ready)
    (hf : ∀ name ∈ referenced items, labels.find? name = some (offset name : Int)) (n ip : Nat) :
    Layout.records labels n ip (items.map Item.line) = records offset n ip items := by
  induction items generalizing n ip
  case nil => rfl
  case cons item items hi =>
    have ⟨hitem, hitems⟩ := List.forall_mem_cons.mp h
    have ⟨hfitem, hfitems⟩ := List.forall_mem_append.mp hf
    rw [List.map_cons, Layout.records, records, record?_line hitem hfitem, hitem.slots_line,
      Body.length_slots, hi hitems hfitems]

theorem map_fst_offsets (ip : Nat) (items : List Item) :
    (offsets ip items).map Prod.fst = defined items := by
  induction items generalizing ip
  case nil => rfl
  case cons item items hi =>
    rw [offsets, List.map_append, hi, defined, defined]
    cases hl : item.label <;> simp [hl]

theorem lookup_map_snd {β γ : Type} (f : β → γ) (entries : List (Text × β)) (key : Text) :
    (entries.map fun entry => (entry.1, f entry.2)).lookup key = (entries.lookup key).map f := by
  induction entries
  case nil => rfl
  case cons entry entries hi =>
    rw [List.map_cons, List.lookup_cons, List.lookup_cons, hi]
    cases key == entry.1 <;> rfl

theorem find?_defined {name : Text} (hl : labels.entries =
      (offsets 0 items).map fun entry => (entry.1, (entry.2 : Int)))
    (hn : name ∈ defined items) :
    labels.find? name = some (Abstract.offset items name : Int) := by
  rw [Table.find?, hl, lookup_map_snd, Abstract.offset]
  cases hlookup : (offsets 0 items).lookup name
  case some => rfl
  case none =>
    rw [←map_fst_offsets 0] at hn
    obtain ⟨entry, hm, he⟩ := List.mem_map.mp hn
    have hne := List.lookup_eq_none_iff.mp hlookup entry hm
    simp [he] at hne

end

namespace Valid

variable {items front : List Item}

-- The first pass takes each part of a program from its start on that has no line too long.
theorem exists_run (hv : Valid items) (asm : Assembler) (hp : front <+: items)
    (hs : ∀ item ∈ front, item.text.length < Source.lineLimit) :
    ∃ d, Draft.Run asm 0 (front.map Item.text) (front.map Item.line) {} d := by
  have hready : ∀ item ∈ front, item.Ready := fun item hm => hv.ready item (hp.subset hm)
  have hlabels : (front.map Item.line).filterMap Line.label = defined front := by
    simp only [List.filterMap_map]
    rfl
  have hsub : (defined front).Sublist (defined items) := hp.sublist.filterMap _
  refine Draft.Run.exists_of_read ?_ (List.forall_mem_map.mpr hs) ?_ ?_ ?_
  case refine_1 =>
    rw [List.map_map, List.map_map]
    exact List.map_congr_left fun item hm => (hready item hm).reads
  case refine_2 => exact List.forall_mem_map.mpr fun item hm => (hready item hm).accepted
  case refine_3 =>
    have hu : (defined front).map Text.upper = (defined front).map (List.map Byte.upper) :=
      List.map_congr_left fun name hn =>
        Text.upper_of_isAscii (Word.isAscii_of_isLabel (hv.spelled name (hsub.subset hn)))
    rw [hlabels, hu]
    exact hv.distinct.sublist (hsub.map _)
  case refine_4 =>
    rw [hlabels]
    intro name hn
    have hn := hsub.subset hn
    rw [Text.upper_of_isAscii (Word.isAscii_of_isLabel (hv.spelled name hn))]
    exact hv.free name hn

theorem lines_render (hv : Valid items) : Source.lines (render items) = items.map Item.text := by
  have hr : render items = (items.map Item.text).flatMap (· ++ ['\n'.toUInt8]) := by
    rw [render, List.flatMap_map]
  rw [hr]
  refine Source.lines_terminated (List.forall_mem_map.mpr fun item hm => ?_)
  exact (hv.ready item hm).oneLine

theorem find?_referenced (hv : Valid items) {labels : Table Text Int} (hl : labels.entries =
      (offsets 0 items).map fun entry => (entry.1, (entry.2 : Int))) :
    ∀ name ∈ referenced items, labels.find? name = some (Abstract.offset items name : Int) :=
  fun name hn => find?_defined hl (hv.known name hn)

end Valid

-- The source text of a valid program gives the code, the labels and the records of the program. A
-- line that is too long to be read is the only way to fail.
theorem assemble_render (asm : Assembler) (items : List Item) (hv : Valid items) :
    ((∀ item ∈ items, item.text.length < Source.lineLimit) →
      ∃ p, asm.assemble { text := render items } = .ok p ∧
        p.code = items.flatMap (fun item => item.body.encode (offset items)) ∧
        p.labels.entries = (offsets 0 items).map (fun entry => (entry.1, (entry.2 : Int))) ∧
        p.records = records (offset items) 0 0 items ∧ p.Mapped) ∧
    ∀ front item back, items = front ++ item :: back →
      (∀ before ∈ front, before.text.length < Source.lineLimit) →
      Source.lineLimit ≤ item.text.length →
      asm.assemble { text := render items } = .error (.onLine front.length [] .lineTooLong) := by
  have hready := hv.ready
  refine ⟨fun hs => ?_, fun front item back he hs hl => ?_⟩
  case refine_1 =>
    have ⟨d, r⟩ := hv.exists_run asm List.prefix_rfl hs
    rw [←hv.lines_render] at r
    have hlabels := r.labels_eq.trans (labels_lines hready 0)
    have hfind := hv.find?_referenced hlabels
    refine ⟨_, Assembler.assemble_eq_ok_iff.mpr ⟨_, d, r, rfl, fun name hn => ?_, rfl⟩, ?_,
      hlabels, ?_, Layout.mapped_program ..⟩
    case refine_1 =>
      rw [references_lines hready] at hn
      refine Layout.fault?_eq_none_iff.mpr ⟨_, ?_, hfind name hn⟩
      exact Int.ofNat_le.mpr (hv.near name hn)
    case refine_2 => exact map_value_lines hready hfind
    case refine_3 => rw [Layout.program_records, records_lines hready hfind]
  case refine_2 =>
    have ⟨d, r⟩ := hv.exists_run asm ⟨item :: back, he.symm⟩ hs
    have hj : Draft.Rejects asm (Source.lines (render items)) front.length [] .lineTooLong := by
      rw [hv.lines_render, he, List.map_append, List.map_cons, ←List.length_map Item.text]
      exact .tooLong r hl
    exact Assembler.assemble_of_outcome (.rejected hj)

-- An alias, a register below another, zeros in front, and a string that looks like everything else.
theorem assemble_render_of_listing :
    let count : Item := ⟨some (Text.ofString "loop"), .instruction
      { encoding  := ⟨"MOV", 3, .register, .regaddress⟩
        legal     := by decide
        name      := "MOV"
        named     := .inl rfl
        spelling  := ⟨Text.ofString "mOv", by decide⟩
        arguments := [.register .a ⟨Text.ofString "a", by decide⟩,
          .indirect .sp ⟨Text.ofString "SP", by decide⟩
            (some ⟨true, [⟨0, by decide, false⟩, ⟨3, by decide, false⟩], by simp, by decide⟩)]
        kinds     := by decide }⟩
    let jump : Item := ⟨none, .instruction
      { encoding  := ⟨"JNZ", 39, .number, .none⟩
        legal     := by decide
        name      := "JNE"
        named     := .inr (by decide)
        spelling  := ⟨Text.ofString "jne", by decide⟩
        arguments := [.number (.label (Text.ofString ".end"))]
        kinds     := by decide }⟩
    let text : Item := ⟨some (Text.ofString ".end"), .string ⟨Text.ofString "DB", by decide⟩
      ⟨"\"; $(x), é:".toList, by decide, by simp, by decide, by decide⟩⟩
    let items := [count, jump, text]
    render items = Text.ofString "loop: mOv a, [SP-03]\njne .end\n.end: DB \"\"; $(x), é:\"\n" ∧
      Valid items ∧
      ∃ p, Assembler.assemble {} { text := render items } = .ok p ∧
        p.code = [3, 0, 236, 39, 5, 34, 59, 32, 36, 40, 120, 41, 44, 32, 233, 58] := by
  intro count jump text items
  have hv : Valid items := by
    constructor <;> decide +kernel
  have ⟨p, hp, hc, _⟩ := (assemble_render {} items hv).left (by decide +kernel)
  exact ⟨by decide +kernel, hv, p, hp, hc.trans (by decide +kernel)⟩

end Abstract

end ByteAsm
