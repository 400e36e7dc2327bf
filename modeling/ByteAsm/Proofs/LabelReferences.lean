import ByteAsm.Proofs.Classification
import ByteAsm.Proofs.Completeness
import ByteAsm.Proofs.Renaming

namespace ByteAsm

open Abstract (Referable)
open Text (inBrackets)

-- The lines of a source that defines a label behind `n` bytes of code and jumps to it.
def Source.jumping (n : Nat) (name : Text) : List Text :=
  List.replicate n (Text.ofString "HLT") ++
    [name ++ Text.ofString ": HLT", Text.ofString "JMP " ++ name]

-- A line that reads the byte at a label.
def Source.loading (name : Text) : Text :=
  Text.ofString "MOV A, [" ++ name ++ [']'.toUInt8]

-- A source of lines, each of which is terminated.
def Source.ofLines (texts : List Text) : Source :=
  { text := texts.flatMap (· ++ ['\n'.toUInt8]) }

variable {name : Text}

namespace Source

theorem length_labelled (name : Text) :
    (name ++ Text.ofString ": HLT").length = name.length + 5 :=
  List.length_append

theorem length_jump (name : Text) : (Text.ofString "JMP " ++ name).length = name.length + 4 :=
  List.length_append.trans (Nat.add_comm _ _)

theorem length_loading (name : Text) : (loading name).length = name.length + 9 := by
  have hl : (Text.ofString "MOV A, [").length = 8 := rfl
  simp only [loading, List.length_append, hl, List.length_singleton]
  omega

theorem newline_not_mem_jumping (n : Nat) (h : Word.isLabel name) :
    ∀ t ∈ jumping n name, '\n'.toUInt8 ∉ t := by
  have hn : '\n'.toUInt8 ∉ name := Word.not_mem_of_isLabel h (by decide) (by decide)
  refine List.forall_mem_append.mpr ⟨fun t ht => ?_, List.forall_mem_cons.mpr ⟨?_, ?_⟩⟩
  case refine_1 => rw [List.eq_of_mem_replicate ht]; decide
  case refine_2 => exact List.not_mem_append hn (by decide)
  case refine_3 => exact List.forall_mem_singleton.mpr (List.not_mem_append (by decide) hn)

theorem newline_not_mem_loading (h : Word.isLabel name) : '\n'.toUInt8 ∉ loading name := by
  have hn : '\n'.toUInt8 ∉ name := Word.not_mem_of_isLabel h (by decide) (by decide)
  exact List.not_mem_append (List.not_mem_append (by decide) hn) (by decide)

theorem lines_jumping (n : Nat) (h : Word.isLabel name) :
    lines (ofLines (jumping n name)).text = jumping n name :=
  lines_terminated (newline_not_mem_jumping n h)

theorem lines_loading (n : Nat) (h : Word.isLabel name) :
    lines (ofLines (jumping n name ++ [loading name])).text = jumping n name ++ [loading name] :=
  lines_terminated <| List.forall_mem_append.mpr
    ⟨newline_not_mem_jumping n h, List.forall_mem_singleton.mpr (newline_not_mem_loading h)⟩

theorem content_loading (name : Text) : content (loading name) = loading name := by
  rw [content, loading, Text.dropEnd?_snoc_of_ne (by decide)]
  rfl

theorem not_hasMark_loading (h : Word.isLabel name) : ¬Expansion.hasMark (loading name) := by
  have hn : '$'.toUInt8 ∉ name := Word.not_mem_of_isLabel h (by decide) (by decide)
  exact Expansion.not_hasMark_of_not_mem
    (List.not_mem_append (List.not_mem_append (by decide) hn) (by decide))

theorem length_jumping (n : Nat) (name : Text) : (jumping n name).length = n + 2 := by
  simp [jumping]

end Source

theorem Operand.classify_name (h : Referable name) :
    classify name = .ok { kind := .number, label := some name } :=
  Abstract.Argument.classify_text (.number (.label name)) (List.forall_mem_singleton.mpr h)

-- The classifier takes any label in brackets.
theorem Operand.classify_inBrackets (h : Referable name) :
    classify (inBrackets name) = .ok { kind := .address, label := some name } :=
  Abstract.Argument.classify_text (.address (.label name)) (List.forall_mem_singleton.mpr h)

theorem Operand.written_name (h : Referable name) : Written name :=
  Abstract.Argument.written_text (.number (.label name)) (List.forall_mem_singleton.mpr h) nofun

theorem Operand.written_inBrackets (h : Referable name) (hd : name.head? ≠ some '.'.toUInt8) :
    Written (inBrackets name) :=
  Abstract.Argument.written_text (.address (.label name)) (List.forall_mem_singleton.mpr h)
    (List.forall_mem_singleton.mpr hd)

namespace Line

def halt (label : Option Text) : Line :=
  ⟨label, some ⟨Text.ofString "HLT", []⟩⟩

def jump (name : Text) : Line :=
  ⟨none, some ⟨Text.ofString "JMP", [name]⟩⟩

def load (name : Text) : Line :=
  ⟨none, some ⟨Text.ofString "MOV", [Text.ofString "A", inBrackets name]⟩⟩

-- The lines that `Source.jumping` is read as.
def jumping (n : Nat) (name : Text) : List Line :=
  List.replicate n (halt none) ++ [halt (some name), jump name]

theorem read_jump (h : Referable name) :
    read (Text.ofString "JMP " ++ name) = .ok (jump name) := by
  have hm : IsMnemonic (Text.ofString "JMP") :=
    ⟨by decide, by decide, List.all_eq_true.mp (by decide)⟩
  have he : Command.render ⟨Text.ofString "JMP", [name]⟩ = Text.ofString "JMP " ++ name :=
    Command.render_one _ _
  rw [←he]
  exact Command.read_render hm (by simp) (List.forall_mem_singleton.mpr (Operand.written_name h))

theorem read_load (h : Referable name) (hd : name.head? ≠ some '.'.toUInt8) :
    read (Source.loading name) = .ok (load name) := by
  have hm : IsMnemonic (Text.ofString "MOV") :=
    ⟨by decide, by decide, List.all_eq_true.mp (by decide)⟩
  have ha : Operand.Written (Text.ofString "A") := .word (.inl rfl) nofun
  have he : Command.render ⟨Text.ofString "MOV", [Text.ofString "A", inBrackets name]⟩ =
      Source.loading name :=
    Command.render_two _ _ _
  rw [←he]
  exact Command.read_render hm (by simp)
    (List.forall_mem_cons.mpr ⟨ha, List.forall_mem_singleton.mpr (Operand.written_inBrackets h hd)⟩)

-- Only words stand in brackets, and no word starts with a dot.
theorem read_load_of_dot (hd : name.head? = some '.'.toUInt8) :
    read (Source.loading name) = .error .malformed := by
  cases name
  case nil => contradiction
  case cons c name =>
    cases hd
    rfl

theorem slots_halt (label : Option Text) : (halt label).slots = [.byte 0] :=
  rfl

theorem statement_jump (h : Referable name) :
    Command.statement ⟨Text.ofString "JMP", [name]⟩ = .ok (.instruction ⟨"JMP", 31, .number, .none⟩
      [{ kind := .number, label := some name }]) := by
  refine Command.Fits.statement_eq_ok rfl (.instruction (by decide) ?_ rfl rfl)
  simp [Operand.classify_name h]

theorem statement_load (h : Referable name) :
    Command.statement ⟨Text.ofString "MOV", [Text.ofString "A", inBrackets name]⟩ =
      .ok (.instruction ⟨"MOV", 2, .register, .address⟩
        [{ kind := .register, value := 0 }, { kind := .address, label := some name }]) := by
  refine Command.Fits.statement_eq_ok rfl (.instruction (by decide) ?_ rfl rfl)
  have ha : Operand.classify (Text.ofString "A") = .ok { kind := .register, value := 0 } := rfl
  simp [Operand.classify_inBrackets h, ha]

theorem slots_jump (h : Referable name) : (jump name).slots = [.byte 31, .label name] :=
  slots_of_statement rfl (statement_jump h)

theorem slots_load (h : Referable name) : (load name).slots = [.byte 2, .byte 0, .label name] :=
  slots_of_statement rfl (statement_load h)

theorem slots_halts (n : Nat) :
    Layout.slots (List.replicate n (halt none)) = List.replicate n (.byte 0) := by
  induction n
  case zero => rfl
  case succ n hi => rw [List.replicate_succ, Layout.slots_cons, hi]; rfl

theorem slots_jumping (h : Referable name) (n : Nat) : Layout.slots (jumping n name) =
    List.replicate (n + 1) (.byte 0) ++ [.byte 31, .label name] := by
  rw [jumping, Layout.slots_append, slots_halts, List.replicate_succ', List.append_assoc]
  simp [Layout.slots, slots_jump h, slots_halt]

theorem labels_halts (n : Nat) : Layout.labels 0 (List.replicate n (halt none)) = [] := by
  refine List.map_eq_nil_iff.mp ((Layout.labels_keys 0 _).trans ?_)
  exact List.filterMap_eq_nil_iff.mpr fun line hm => List.eq_of_mem_replicate hm ▸ rfl

theorem labels_jumping (n : Nat) (name : Text) :
    Layout.labels 0 (jumping n name) = [(name, (n : Int))] := by
  rw [jumping, Layout.labels_append, labels_halts, slots_halts, List.length_replicate]
  simp [Layout.labels, halt, jump]

theorem slots_loading (h : Referable name) (n : Nat) :
    Layout.slots (jumping n name ++ [load name]) = List.replicate (n + 1) (.byte 0) ++
      [.byte 31, .label name, .byte 2, .byte 0, .label name] := by
  rw [Layout.slots_append, slots_jumping h, List.append_assoc]
  simp [Layout.slots, slots_load h]

theorem labels_loading (n : Nat) (name : Text) :
    Layout.labels 0 (jumping n name ++ [load name]) = [(name, (n : Int))] := by
  rw [Layout.labels_append, labels_jumping]
  rfl

end Line

namespace Draft

variable {asm : Assembler} {d : Draft} {raws : List Text} {lines : List Line}

-- A run goes on with a line that can be read, fits the instruction set and brings no old label.
theorem Run.exists_snoc {raw : Text} {line : Line} (r : Run asm 0 raws lines {} d)
    (hr : Line.read raw = .ok line) (hs : raw.length < Source.lineLimit)
    (hf : ∀ name ∈ line.label, d.labels.entries = [] ∧ Referable name)
    (hc : ∀ c ∈ line.command, ∃ s, c.statement = .ok s) :
    ∃ d', Run asm 0 (raws ++ [raw]) (lines ++ [line]) {} d' := by
  have hf' : ∀ name ∈ line.label,
      d.normalized.find? name.upper = none ∧ name.upper ∉ reserved := by
    intro name hn
    obtain ⟨he, href⟩ := hf name hn
    have hd := (r.coherent .empty).normalized
    exact ⟨Table.find?_eq_none_iff.mpr (by simp [hd, he]), href.not_reserved⟩
  obtain ⟨d', ha⟩ := exists_add (n := 0 + raws.length) hf' hc
  exact ⟨d', r.snoc ⟨hs, Line.readIn_content hr _, ha⟩⟩

theorem exists_run_halts (asm : Assembler) (n : Nat) :
    ∃ d, Run asm 0 (List.replicate n (Text.ofString "HLT"))
      (List.replicate n (Line.halt none)) {} d := by
  induction n
  case zero => exact ⟨{}, .refl⟩
  case succ n hi =>
    obtain ⟨d, r⟩ := hi
    rw [List.replicate_succ', List.replicate_succ']
    exact r.exists_snoc rfl (by decide) nofun fun c hc => by cases hc; exact ⟨_, rfl⟩

theorem exists_run_jumping (asm : Assembler) (n : Nat) (h : Referable name)
    (hs : name.length + 5 < Source.lineLimit) :
    ∃ d, Run asm 0 (Source.jumping n name) (Line.jumping n name) {} d := by
  obtain ⟨d₁, r₁⟩ := exists_run_halts asm n
  obtain ⟨d₂, r₂⟩ := r₁.exists_snoc (Line.read_labelled h.spelled)
    (by rwa [Source.length_labelled]) (by simp [r₁.labels_eq, Line.labels_halts, h])
    (by simpa using ⟨_, rfl⟩)
  obtain ⟨d₃, r₃⟩ := r₂.exists_snoc (Line.read_jump h) (by rw [Source.length_jump]; omega)
    nofun (by simpa [Line.jump] using ⟨_, Line.statement_jump h⟩)
  rw [List.append_assoc, List.append_assoc] at r₃
  exact ⟨d₃, r₃⟩

theorem exists_run_loading (asm : Assembler) (n : Nat) (h : Referable name)
    (hd : name.head? ≠ some '.'.toUInt8) (hs : name.length + 9 < Source.lineLimit) :
    ∃ d, Run asm 0 (Source.jumping n name ++ [Source.loading name])
      (Line.jumping n name ++ [Line.load name]) {} d := by
  obtain ⟨d, r⟩ := exists_run_jumping asm n h (by omega)
  exact r.exists_snoc (Line.read_load h hd) (by rwa [Source.length_loading]) nofun
    (by simpa [Line.load] using ⟨_, Line.statement_load h⟩)

end Draft

namespace Assembler

open Draft (Run Rejects)

variable {n : Nat} {lines : List Line}

-- If the label is the only one and all references are to it, its offset stands for each of them.
theorem exists_program {asm : Assembler} {source : Source} {d : Draft} (hn : n ≤ 255)
    (hf : source.failure = none) (r : Run asm 0 (Source.lines source.text) lines {} d)
    (hl : Layout.labels 0 lines = [(name, (n : Int))])
    (hr : ∀ x ∈ Layout.references lines, x = name) :
    ∃ p, asm.assemble source = .ok p ∧ ∃ labels : Table Text Int,
      labels.find? name = some (n : Int) ∧
        p.code = (Layout.slots lines).map (Slot.value labels) := by
  have hfind : d.labels.find? name = some (n : Int) := by
    rw [Table.find?_eq_some_iff, r.labels_eq, hl]
    exact List.mem_singleton_self _
  refine ⟨_, assemble_eq_ok_iff.mpr ⟨lines, d, r, hf, fun x hx => ?_, rfl⟩, d.labels, hfind, rfl⟩
  rw [hr x hx]
  exact Layout.fault?_eq_none_iff.mpr ⟨n, by omega, hfind⟩

theorem assemble_jumping (asm : Assembler) (h : Referable name) (hn : n ≤ 255)
    (hs : name.length + 5 < Source.lineLimit) :
    ∃ p, asm.assemble (Source.ofLines (Source.jumping n name)) = .ok p ∧
      p.code = List.replicate (n + 1) 0 ++ [31, UInt8.ofNat n] := by
  obtain ⟨d, r⟩ := Draft.exists_run_jumping asm n h hs
  rw [←Source.lines_jumping n h.spelled] at r
  have hr : ∀ x ∈ Layout.references (Line.jumping n name), x = name := by
    simp [Layout.references, Line.slots_jumping h, Slot.label?]
  obtain ⟨p, hp, labels, hf, hc⟩ := exists_program hn rfl r (Line.labels_jumping n name) hr
  refine ⟨p, hp, ?_⟩
  simp [hc, Line.slots_jumping h, Slot.value, hf]

theorem assemble_loading (asm : Assembler) (h : Referable name) (hn : n ≤ 255)
    (hd : name.head? ≠ some '.'.toUInt8) (hs : name.length + 9 < Source.lineLimit) :
    ∃ p, asm.assemble (Source.ofLines (Source.jumping n name ++ [Source.loading name])) = .ok p ∧
      p.code = List.replicate (n + 1) 0 ++ [31, UInt8.ofNat n, 2, 0, UInt8.ofNat n] := by
  obtain ⟨d, r⟩ := Draft.exists_run_loading asm n h hd hs
  rw [←Source.lines_loading n h.spelled] at r
  have hr : ∀ x ∈ Layout.references (Line.jumping n name ++ [Line.load name]), x = name := by
    simp [Layout.references, Line.slots_loading h, Slot.label?]
  obtain ⟨p, hp, labels, hf, hc⟩ := exists_program hn rfl r (Line.labels_loading n name) hr
  refine ⟨p, hp, ?_⟩
  simp [hc, Line.slots_loading h, Slot.value, hf]

theorem assemble_loading_of_dot (asm : Assembler) (n : Nat) (h : Referable name)
    (hd : name.head? = some '.'.toUInt8) (hs : name.length + 9 < Source.lineLimit) :
    asm.assemble (Source.ofLines (Source.jumping n name ++ [Source.loading name])) =
      .error (.onLine (n + 2 : Nat) (Source.loading name) .malformed) := by
  obtain ⟨d, r⟩ := Draft.exists_run_jumping asm n h (by omega)
  have ha : Draft.addLine asm (Source.jumping n name).length
      (Source.content (Source.loading name)) d = .error .malformed := by
    rw [Source.content_loading, Draft.addLine_eq,
      Line.readIn_of_not_hasMark (Source.not_hasMark_loading h.spelled), Line.read_load_of_dot hd]
  have hj : Rejects asm (Source.jumping n name ++ [Source.loading name])
      (Source.jumping n name).length (Source.content (Source.loading name)) .malformed :=
    .fault r (by rwa [Source.length_loading]) ha
  rw [Source.length_jumping, Source.content_loading, ←Source.lines_loading n h.spelled] at hj
  exact assemble_of_outcome (.rejected hj)

theorem assemble_loading_of_long (asm : Assembler) (n : Nat) (h : Referable name)
    (hs : name.length + 5 < Source.lineLimit) (hl : Source.lineLimit ≤ name.length + 9) :
    asm.assemble (Source.ofLines (Source.jumping n name ++ [Source.loading name])) =
      .error (.onLine (n + 2 : Nat) [] .lineTooLong) := by
  obtain ⟨d, r⟩ := Draft.exists_run_jumping asm n h hs
  have hj : Rejects asm (Source.jumping n name ++ [Source.loading name])
      (Source.jumping n name).length [] .lineTooLong :=
    .tooLong r (by rwa [Source.length_loading])
  rw [Source.length_jumping, ←Source.lines_loading n h.spelled] at hj
  exact assemble_of_outcome (.rejected hj)

theorem assemble_jumping_of_long (asm : Assembler) (n : Nat) (h : Referable name)
    (hl : Source.lineLimit ≤ name.length + 5) :
    asm.assemble (Source.ofLines (Source.jumping n name ++ [Source.loading name])) =
      .error (.onLine n [] .lineTooLong) := by
  obtain ⟨d, r⟩ := Draft.exists_run_halts asm n
  refine assemble_of_outcome (.rejected ?_)
  rw [Source.lines_loading n h.spelled, Source.jumping, List.append_assoc]
  have hj : Rejects asm (List.replicate n (Text.ofString "HLT") ++
      [name ++ Text.ofString ": HLT", Text.ofString "JMP " ++ name, Source.loading name])
      (List.replicate n (Text.ofString "HLT")).length [] .lineTooLong :=
    .tooLong r (by rwa [Source.length_labelled])
  rwa [List.length_replicate] at hj

-- Both references give the offset of the label. A label that starts with a dot is refused in
-- brackets, though its definition and the jump to it are accepted and it is classified like any
-- other. Apart from that, only lines that are too long to be read are refused.
theorem assemble_both_references (asm : Assembler) (n : Nat) (name : Text) (h : Referable name)
    (hn : n ≤ 255) :
    let jumping := Source.ofLines (Source.jumping n name)
    let both := Source.ofLines (Source.jumping n name ++ [Source.loading name])
    Operand.classify (inBrackets name) = .ok { kind := .address, label := some name } ∧
    (name.length + 5 < Source.lineLimit → ∃ p, asm.assemble jumping = .ok p ∧
      p.code = List.replicate (n + 1) 0 ++ [31, UInt8.ofNat n]) ∧
    (name.length + 9 < Source.lineLimit →
      (name.head? ≠ some '.'.toUInt8 → ∃ p, asm.assemble both = .ok p ∧
        p.code = List.replicate (n + 1) 0 ++ [31, UInt8.ofNat n, 2, 0, UInt8.ofNat n]) ∧
      (name.head? = some '.'.toUInt8 →
        asm.assemble both = .error (.onLine (n + 2 : Nat) (Source.loading name) .malformed))) ∧
    (name.length + 5 < Source.lineLimit → Source.lineLimit ≤ name.length + 9 →
      asm.assemble both = .error (.onLine (n + 2 : Nat) [] .lineTooLong)) ∧
    (Source.lineLimit ≤ name.length + 5 →
      asm.assemble both = .error (.onLine n [] .lineTooLong)) := by
  exact ⟨Operand.classify_inBrackets h, assemble_jumping asm h hn,
    fun hs => ⟨fun hd => assemble_loading asm h hn hd hs,
      fun hd => assemble_loading_of_dot asm n h hd hs⟩,
    assemble_loading_of_long asm n h, assemble_jumping_of_long asm n h⟩

-- A label in the letters of a register with more behind them, and one that starts with a dot.
theorem assemble_both_references_of_names :
    let name := Text.ofString "sp_1"
    let dotted := Text.ofString ".sp"
    Referable name ∧ Referable dotted ∧
      (∃ p, assemble {} (.ofLines (Source.jumping 2 name ++ [Source.loading name])) = .ok p ∧
        p.code = [0, 0, 0, 31, 2, 2, 0, 2]) ∧
      ∃ p, assemble {} (.ofLines (Source.jumping 2 dotted)) = .ok p ∧
        p.code = [0, 0, 0, 31, 2] := by
  intro name dotted
  have hname : Referable name := by decide +kernel
  have hdotted : Referable dotted := by decide +kernel
  obtain ⟨_, _, hboth, _⟩ := assemble_both_references {} 2 name hname (by decide)
  obtain ⟨_, hjump, _⟩ := assemble_both_references {} 2 dotted hdotted (by decide)
  exact ⟨hname, hdotted, (hboth (by decide +kernel)).left (by decide), hjump (by decide +kernel)⟩

-- The bracketed operand of the last line is no more malformed than the bare one above it.
theorem assemble_bracketed_dot :
    let name := Text.ofString ".x"
    let source : Source := { text := Text.ofString ".x: HLT\nJMP .x\nMOV A, [.x]\n" }
    source = .ofLines (Source.jumping 0 name ++ [Source.loading name]) ∧ Referable name ∧
      assemble {} source = .error (.onLine 2 (Text.ofString "MOV A, [.x]") .malformed) := by
  intro name source
  exact ⟨by rfl, by decide +kernel, by decide +kernel⟩

end Assembler

end ByteAsm
