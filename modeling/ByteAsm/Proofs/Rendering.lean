import ByteAsm.Proofs.Expanded
import ByteAsm.Proofs.Outcome
import ByteAsm.Proofs.Quotes

namespace ByteAsm

-- A command on a line of its own, with blanks where they are usual.
def Command.render (c : Command) : Text :=
  match c.operands with
  | [] => c.mnemonic
  | ops => c.mnemonic ++ ' '.toUInt8 :: Text.join ", " ops

namespace Abstract

-- The characters of a string, of which each fits a byte. Only the first may be a double quote.
structure Literal where
  chars    : List Char
  nonempty : chars ≠ []
  latin    : ∀ c ∈ chars, c.toNat ≤ 255
  oneLine  : '\n' ∉ chars
  closed   : '"' ∉ chars.tail

def Literal.text (l : Literal) : Text :=
  '"'.toUInt8 :: (Text.ofChars l.chars ++ ['"'.toUInt8])

def Literal.bytes (l : Literal) : List UInt8 :=
  l.chars.map fun c => UInt8.ofNat c.toNat

-- An instruction of the table, under its own name or an alias, with operands of the right kinds.
structure Instruction where
  encoding  : Encoding
  legal     : encoding ∈ InstructionSet.encodings
  name      : Text
  named     : name = encoding.mnemonic ∨ (name, encoding.mnemonic) ∈ InstructionSet.aliases
  spelling  : Spelling name
  arguments : List Argument
  kinds     : arguments.map Argument.kind = [encoding.first, encoding.second].filter (· ≠ .none)

inductive Body
  | nothing
  | data (s : Spelling InstructionSet.data) (v : Value)
  | string (s : Spelling InstructionSet.data) (l : Literal)
  | instruction (i : Instruction)

structure Item where
  label : Option Text
  body  : Body

namespace Body

def command : Body → Option Command
  | nothing => none
  | data s v => some ⟨s.text, [v.text]⟩
  | string s l => some ⟨s.text, [l.text]⟩
  | instruction i => some ⟨i.spelling.text, i.arguments.map Argument.text⟩

-- The labels that the body refers to, and those of them that stand in brackets.
def labels : Body → List Text
  | nothing | string .. => []
  | data _ v => v.labels
  | instruction i => i.arguments.flatMap Argument.labels

def bracketed : Body → List Text
  | instruction i => i.arguments.flatMap Argument.bracketed
  | _ => []

end Body

def Item.line (item : Item) : Line :=
  ⟨item.label, item.body.command⟩

def Item.text (item : Item) : Text :=
  item.label.elim [] (· ++ Text.ofString ": ") ++ item.body.command.elim [] Command.render

def render (items : List Item) : Text :=
  items.flatMap fun item => item.text ++ ['\n'.toUInt8]

def Value.encode (offset : Text → Nat) : Value → UInt8
  | byte n => n.value
  | label name => UInt8.ofNat (offset name)

def Argument.encode (offset : Text → Nat) : Argument → UInt8
  | register r _ => r.id
  | indirect r _ o => Word.encodeOffset (o.elim 0 Offset.value) r
  | address v | number v => v.encode offset

namespace Body

def encode (offset : Text → Nat) : Body → List UInt8
  | nothing => []
  | data _ v => [v.encode offset]
  | string _ l => l.bytes
  | instruction i => i.encoding.opcode :: i.arguments.map (Argument.encode offset)

def size : Body → Nat
  | nothing => 0
  | data .. => 1
  | string _ l => l.chars.length
  | instruction i => i.arguments.length + 1

def isData : Body → Bool
  | data .. | string .. => true
  | nothing | instruction _ => false

end Body

-- The labels of a program with their offsets. The code of the first statement starts at `ip`.
def offsets : (ip : Nat) → List Item → List (Text × Nat)
  | _, [] => []
  | ip, item :: rest => (item.label.map (·, ip)).toList ++ offsets (ip + item.body.size) rest

def offset (items : List Item) (name : Text) : Nat :=
  ((offsets 0 items).lookup name).getD 0

def records (offset : Text → Nat) : (n ip : Nat) → List Item → List Record
  | _, _, [] => []
  | n, ip, item :: rest =>
    (item.body.command.map fun c =>
      ⟨n, ip, c.words, item.body.encode offset, item.body.isData⟩).toList ++
    records offset (n + 1) (ip + item.body.size) rest

def defined (items : List Item) : List Text :=
  items.filterMap Item.label

def referenced (items : List Item) : List Text :=
  items.flatMap fun item => item.body.labels

def bracketed (items : List Item) : List Text :=
  items.flatMap fun item => item.body.bracketed

structure Valid (items : List Item) : Prop where
  spelled  : ∀ name ∈ defined items, Word.isLabel name
  distinct : ((defined items).map (List.map Byte.upper)).Nodup
  free     : ∀ name ∈ defined items, name.map Byte.upper ∉ Draft.reserved
  known    : ∀ name ∈ referenced items, name ∈ defined items
  plain    : ∀ name ∈ referenced items, name.map Byte.upper ≠ Register.sp.name
  near     : ∀ name ∈ referenced items, offset items name ≤ 255
  undotted : ∀ name ∈ bracketed items, name.head? ≠ some '.'.toUInt8

theorem Valid.referable {items : List Item} (h : Valid items) :
    ∀ name ∈ referenced items, Referable name := by
  intro name hr
  have hd := h.known name hr
  have hf := h.free name hd
  refine ⟨h.spelled name hd, fun r he => ?_⟩
  cases r
  case sp => exact h.plain name hr he
  all_goals exact hf (he ▸ by decide)

section

open InstructionSet (encodings aliases canonical)
open Line (IsMnemonic)

theorem isMnemonic_of_all {w : Text} (h : 2 ≤ w.length ∧ w.length ≤ 4 ∧ w.all Byte.isLetter) :
    IsMnemonic w :=
  ⟨h.left, h.right.left, List.all_eq_true.mp h.right.right⟩

-- Facts of the tables, an entry at a time.
theorem isMnemonic_encodings : ∀ enc ∈ encodings, IsMnemonic enc.mnemonic := by
  have h : ∀ enc ∈ encodings, 2 ≤ enc.mnemonic.length ∧ enc.mnemonic.length ≤ 4 ∧
      enc.mnemonic.all Byte.isLetter := by decide +kernel
  exact fun enc he => isMnemonic_of_all (h enc he)

theorem isMnemonic_aliases : ∀ a ∈ aliases, IsMnemonic a.1 ∧ a.1 ≠ InstructionSet.data := by
  have h : ∀ a ∈ aliases, (2 ≤ a.1.length ∧ a.1.length ≤ 4 ∧ a.1.all Byte.isLetter) ∧
      a.1 ≠ InstructionSet.data := by decide +kernel
  exact fun a ha => ⟨isMnemonic_of_all (h a ha).left, (h a ha).right⟩

theorem lookup_encodings : ∀ enc ∈ encodings, aliases.lookup enc.mnemonic = none := by
  decide +kernel

theorem lookup_aliases : ∀ a ∈ aliases, aliases.lookup a.1 = some a.2 := by
  decide +kernel

end

namespace Spelling

variable {name : Text}

theorem isMnemonic_text (s : Spelling name) (h : Line.IsMnemonic name) :
    Line.IsMnemonic s.text := by
  have ⟨hl, hu, hc⟩ := h
  exact ⟨s.length_text ▸ hl, s.length_text ▸ hu, s.isLetter_text hc⟩

end Spelling

namespace Instruction

variable (i : Instruction)

theorem isMnemonic_name : Line.IsMnemonic i.name := by
  cases i.named
  case inl h => exact h ▸ isMnemonic_encodings i.encoding i.legal
  case inr h => exact (isMnemonic_aliases _ h).left

theorem name_ne_data : i.name ≠ InstructionSet.data := by
  cases i.named
  case inl h => exact h ▸ InstructionSet.data_not_named i.encoding i.legal
  case inr h => exact (isMnemonic_aliases _ h).right

theorem upper_text : i.spelling.text.upper = i.name :=
  i.spelling.upper_text i.isMnemonic_name.right.right

theorem canonical_text : InstructionSet.canonical i.spelling.text = i.encoding.mnemonic := by
  rw [InstructionSet.canonical, upper_text]
  cases i.named
  case inl h => rw [h, lookup_encodings i.encoding i.legal, Option.getD_none]
  case inr h => rw [lookup_aliases _ h, Option.getD_some]

end Instruction

theorem Argument.kind_operand (a : Argument) : a.operand.kind = a.kind := by
  cases a
  case register => rfl
  case indirect => rfl
  case address v => cases v <;> rfl
  case number v => cases v <;> rfl

theorem kindAt_eq (ops : List Operand) (n : Nat) :
    Operand.kindAt ops n = (ops.map Operand.kind).getD n .none := by
  simp only [Operand.kindAt, List.getD_eq_getElem?_getD, List.getElem?_map]
  cases ops[n]? <;> rfl

namespace Instruction

variable (i : Instruction)

def operands : List Operand :=
  i.arguments.map Argument.operand

theorem map_kind_operands :
    i.operands.map Operand.kind = [i.encoding.first, i.encoding.second].filter (· ≠ .none) := by
  rw [operands, List.map_map, ←i.kinds]
  exact List.map_congr_left fun a _ => a.kind_operand

theorem length_operands : i.operands.length = i.encoding.arity := by
  have h := congrArg List.length i.map_kind_operands
  rw [List.length_map] at h
  rw [h, Encoding.arity, List.countP_eq_length_filter]

theorem kindAt_operands : Operand.kindAt i.operands 0 = i.encoding.first ∧
    Operand.kindAt i.operands 1 = i.encoding.second := by
  have hs := InstructionSet.second_eq_none_of_first i.encoding i.legal
  rw [kindAt_eq, kindAt_eq, map_kind_operands]
  by_cases h₁ : i.encoding.first = .none
  case pos => simp [h₁, hs h₁]
  case neg => by_cases h₂ : i.encoding.second = .none <;> simp [h₁, h₂]

theorem select_text : InstructionSet.select i.spelling.text (Operand.kindAt i.operands 0)
    (Operand.kindAt i.operands 1) = .ok i.encoding := by
  have ⟨h₁, h₂⟩ := i.kindAt_operands
  exact InstructionSet.select_eq_ok_iff.mpr ⟨i.legal, i.canonical_text.symm, h₁.symm, h₂.symm⟩

theorem fits (h : ∀ name ∈ i.arguments.flatMap Argument.labels, Referable name) :
    Command.Fits ⟨i.spelling.text, i.arguments.map Argument.text⟩
      (.instruction i.encoding i.operands) := by
  have hd : i.spelling.text.upper ≠ InstructionSet.data := by
    rw [upper_text]
    exact i.name_ne_data
  refine .instruction hd ?_ ?_ i.select_text
  case refine_1 =>
    rw [operands, List.map_map, List.map_map]
    refine List.map_congr_left fun a ha => a.classify_text fun name hn => h name ?_
    exact List.mem_flatMap.mpr ⟨a, ha, hn⟩
  case refine_2 => rw [InstructionSet.arity?_of_select hd i.select_text, length_operands]

end Instruction

namespace Literal

variable (l : Literal)

theorem classify_text :
    Operand.classify l.text = .ok { kind := .numbers, values := l.bytes } :=
  Operand.classify_latin ⟨l.nonempty, rfl, l.latin⟩

-- The quote that ends the string is the first one behind its first byte.
theorem written_text : Operand.Written l.text := by
  have hcl := l.closed
  cases hc : l.chars
  case nil => exact absurd hc l.nonempty
  case cons c cs =>
    have ⟨b, bs, hb, _⟩ := Text.firstPiece_encode c []
    have ht : l.text = '"'.toUInt8 :: b :: ((bs ++ Text.ofChars cs) ++ ['"'.toUInt8]) := by
      simp [text, hc, Text.ofChars, hb]
    rw [hc, List.tail_cons] at hcl
    rw [ht]
    refine .quoted (by decide) (List.forall_mem_append.mpr ⟨fun x hx he => ?_, fun x hx he => ?_⟩)
    case refine_1 =>
      by_cases hc : c.toNat < 0x80
      case pos =>
        rw [Text.encode_one hc] at hb
        cases hb
        contradiction
      case neg =>
        have hle := Text.le_of_mem_encode (Nat.le_of_not_lt hc) x (hb ▸ List.mem_cons_of_mem _ hx)
        exact absurd (he ▸ hle) (by decide)
    case refine_2 => exact Text.not_mem_ofChars (by decide) hcl (he ▸ hx)

theorem newline_not_mem_text : '\n'.toUInt8 ∉ l.text := by
  have ho : '\n'.toUInt8 ∉ Text.ofChars l.chars := Text.not_mem_ofChars (by decide) l.oneLine
  intro hm
  rcases List.mem_cons.mp hm with he | hm
  case inl => exact absurd he (by decide)
  case inr =>
    cases List.mem_append.mp hm
    case inl hm => exact ho hm
    case inr hm => exact absurd (List.mem_singleton.mp hm) (by decide)

end Literal

theorem newline_not_mem_of_forall {p : UInt8 → Bool} {t : Text} (hp : ¬p '\n'.toUInt8)
    (h : ∀ c ∈ t, p c) : '\n'.toUInt8 ∉ t :=
  fun hm => hp (h _ hm)

theorem Value.newline_not_mem_text (v : Value) (h : ∀ name ∈ v.labels, Referable name) :
    '\n'.toUInt8 ∉ v.text := by
  have ⟨c, rest, he, hc, hr⟩ := v.text_eq_cons h
  rw [he]
  have hc : c ≠ '\n'.toUInt8 :=
    Byte.ne_of_holds (p := fun c => Word.startsLabel c || Byte.isDigit c) hc (by decide)
  exact List.not_mem_cons_of_ne_of_not_mem hc.symm (newline_not_mem_of_forall (by decide) hr)

theorem Argument.newline_not_mem_text (a : Argument) (h : ∀ name ∈ a.labels, Referable name) :
    '\n'.toUInt8 ∉ a.text := by
  have hopen {t : Text} (ht : '\n'.toUInt8 ∉ t) :
      '\n'.toUInt8 ∉ '['.toUInt8 :: (t ++ [']'.toUInt8]) :=
    List.not_mem_cons_of_ne_of_not_mem (by decide) (List.not_mem_append ht (by decide))
  have hs {r : Register} (s : Spelling r.name) : '\n'.toUInt8 ∉ s.text :=
    newline_not_mem_of_forall (by decide) (s.isLetter_text r.isLetter_name)
  cases a
  case register r s => exact hs s
  case indirect r s offset =>
    refine hopen (List.not_mem_append (hs s) ?_)
    cases offset
    case none => exact List.not_mem_nil
    case some o =>
      have ho := newline_not_mem_of_forall (by decide) o.isDigit_digits
      refine List.not_mem_cons_of_ne_of_not_mem (fun hn => ?_) ho
      cases o.sign_cases
      case inl h => exact absurd (hn.trans h) (by decide)
      case inr h => exact absurd (hn.trans h) (by decide)
  case address v => exact hopen (v.newline_not_mem_text h)
  case number v => exact v.newline_not_mem_text h

end Abstract

namespace Command

variable {c : Command}

theorem render_one (m op : Text) : render ⟨m, [op]⟩ = m ++ ' '.toUInt8 :: op := by
  simp [render, Text.join, List.intercalate]

theorem render_two (m op₁ op₂ : Text) :
    render ⟨m, [op₁, op₂]⟩ = m ++ ' '.toUInt8 :: (op₁ ++ ','.toUInt8 :: ' '.toUInt8 :: op₂) := by
  simp [render, Text.join, List.intercalate]
  rfl

theorem render_written (hm : Line.IsMnemonic c.mnemonic) (hl : c.operands.length ≤ 2)
    (ho : ∀ op ∈ c.operands, Operand.Written op) : Line.CommandWritten (some c) c.render := by
  obtain ⟨m, ops⟩ := c
  cases ops
  case nil =>
    have hw := Line.CommandWritten.some hm .none
    rwa [List.append_nil] at hw
  case cons op₁ ops =>
    have ⟨h₁, hs⟩ := List.forall_mem_cons.mp ho
    cases ops
    case nil =>
      rw [render_one]
      exact .some hm (.one Line.blanks_space (by simp) h₁)
    case cons op₂ ops =>
      have h₂ := hs op₂ List.mem_cons_self
      have hn : ops = [] := by
        simp only [List.length_cons] at hl
        exact List.length_eq_zero_iff.mp (by omega)
      subst hn
      rw [render_two]
      exact .some hm
        (.two Line.blanks_space (by simp) h₁ Line.blanks_nil Line.blanks_space h₂)

theorem read_render (hm : Line.IsMnemonic c.mnemonic) (hl : c.operands.length ≤ 2)
    (ho : ∀ op ∈ c.operands, Operand.Written op) : Line.read c.render = .ok ⟨none, some c⟩ := by
  have htail : Line.Tail [] := ⟨[], [], by simp, rfl, .inl rfl⟩
  have hw := Line.Written.mk Line.blanks_nil .none Line.blanks_nil (render_written hm hl ho) htail
  exact Line.read_of_written (by simpa using hw)

theorem newline_not_mem_join {sep : Text} {ops : List Text} (hsep : '\n'.toUInt8 ∉ sep)
    (ho : ∀ op ∈ ops, '\n'.toUInt8 ∉ op) : '\n'.toUInt8 ∉ Text.join sep ops := by
  induction ops
  case nil => exact List.not_mem_nil
  case cons op ops hi =>
    have ⟨h, hs⟩ := List.forall_mem_cons.mp ho
    cases ops
    case nil => simpa [Text.join, List.intercalate] using h
    case cons =>
      have hr := List.not_mem_append h (List.not_mem_append hsep (hi hs))
      simpa [Text.join, List.intercalate] using hr

theorem newline_not_mem_render (hm : Line.IsMnemonic c.mnemonic)
    (ho : ∀ op ∈ c.operands, '\n'.toUInt8 ∉ op) : '\n'.toUInt8 ∉ c.render := by
  have hm : '\n'.toUInt8 ∉ c.mnemonic :=
    Abstract.newline_not_mem_of_forall (by decide) hm.right.right
  unfold render
  split
  case h_1 => exact hm
  case h_2 =>
    refine List.not_mem_append hm (List.not_mem_cons_of_ne_of_not_mem (by decide) ?_)
    exact newline_not_mem_join (by decide) ho

end Command

namespace Abstract

namespace Body

def statement? : Body → Option Statement
  | nothing => none
  | data _ v => some (.data (v.operand .number))
  | string _ l => some (.data { kind := .numbers, values := l.bytes })
  | instruction i => some (.instruction i.encoding i.operands)

-- What the command of a body is fit for: its line can be read, and its code is known.
structure Sound (c : Command) (s : Statement) : Prop where
  mnemonic : Line.IsMnemonic c.mnemonic
  few      : c.operands.length ≤ 2
  written  : ∀ op ∈ c.operands, Operand.Written op
  oneLine  : ∀ op ∈ c.operands, '\n'.toUInt8 ∉ op
  fits     : c.Fits s

theorem isMnemonic_data : Line.IsMnemonic InstructionSet.data :=
  ⟨by decide, by decide, List.all_eq_true.mp (by decide)⟩

theorem kind_operand (v : Value) (kind : OperandKind) : (v.operand kind).kind = kind := by
  cases v <;> rfl

theorem sound_data (s : Spelling InstructionSet.data) (v : Value)
    (h : ∀ name ∈ v.labels, Referable name) :
    Sound ⟨s.text, [v.text]⟩ (.data (v.operand .number)) where
  mnemonic := s.isMnemonic_text isMnemonic_data
  few      := by simp
  written  := List.forall_mem_singleton.mpr <|
    Argument.written_text (.number v) h (by simp [Argument.bracketed])
  oneLine  := List.forall_mem_singleton.mpr <| v.newline_not_mem_text h
  fits     := .data (s.upper_text isMnemonic_data.right.right)
    (Argument.classify_text (.number v) h) (.inl (kind_operand v _))

theorem sound_string (s : Spelling InstructionSet.data) (l : Literal) :
    Sound ⟨s.text, [l.text]⟩ (.data { kind := .numbers, values := l.bytes }) where
  mnemonic := s.isMnemonic_text isMnemonic_data
  few      := by simp
  written  := List.forall_mem_singleton.mpr l.written_text
  oneLine  := List.forall_mem_singleton.mpr l.newline_not_mem_text
  fits     := .data (s.upper_text isMnemonic_data.right.right) l.classify_text (.inr rfl)

theorem sound_instruction (i : Instruction)
    (h : ∀ name ∈ i.arguments.flatMap Argument.labels, Referable name)
    (hb : ∀ name ∈ i.arguments.flatMap Argument.bracketed, name.head? ≠ some '.'.toUInt8) :
    Sound ⟨i.spelling.text, i.arguments.map Argument.text⟩
      (.instruction i.encoding i.operands) where
  mnemonic := i.spelling.isMnemonic_text i.isMnemonic_name
  few      := by
    have hl := i.length_operands
    have ha : i.encoding.arity ≤ 2 := List.countP_le_length
    simp only [Instruction.operands, List.length_map] at hl ⊢
    omega
  written  := List.forall_mem_map.mpr fun a ha =>
    a.written_text (fun name hn => h name (List.mem_flatMap.mpr ⟨a, ha, hn⟩))
      fun name hn => hb name (List.mem_flatMap.mpr ⟨a, ha, hn⟩)
  oneLine  := List.forall_mem_map.mpr fun a ha =>
    a.newline_not_mem_text fun name hn => h name (List.mem_flatMap.mpr ⟨a, ha, hn⟩)
  fits     := i.fits h

theorem sound (b : Body) (h : ∀ name ∈ b.labels, Referable name)
    (hb : ∀ name ∈ b.bracketed, name.head? ≠ some '.'.toUInt8) :
    b.command = none ∧ b.statement? = none ∨
      ∃ c s, b.command = some c ∧ b.statement? = some s ∧ Sound c s := by
  cases b
  case nothing => exact .inl ⟨rfl, rfl⟩
  case data s v => exact .inr ⟨_, _, rfl, rfl, sound_data s v h⟩
  case string s l => exact .inr ⟨_, _, rfl, rfl, sound_string s l⟩
  case instruction i => exact .inr ⟨_, _, rfl, rfl, sound_instruction i h hb⟩

end Body

-- What the first pass needs to know of a statement.
structure Item.Ready (item : Item) : Prop where
  reads     : Line.read item.text = .ok item.line
  oneLine   : '\n'.toUInt8 ∉ item.text
  statement : item.line.statement? = item.body.statement?
  accepted  : ∀ c ∈ item.line.command, ∃ s, c.statement = .ok s

theorem Body.written (b : Body) (h : ∀ name ∈ b.labels, Referable name)
    (hb : ∀ name ∈ b.bracketed, name.head? ≠ some '.'.toUInt8) :
    Line.CommandWritten b.command (b.command.elim [] Command.render) ∧
      '\n'.toUInt8 ∉ b.command.elim [] Command.render := by
  rcases b.sound h hb with ⟨hc, _⟩ | ⟨c, s, hc, _, hs⟩
  case inl => simp [hc, Line.CommandWritten.none]
  case inr =>
    rw [hc]
    exact ⟨c.render_written hs.mnemonic hs.few hs.written,
      c.newline_not_mem_render hs.mnemonic hs.oneLine⟩

namespace Item

variable (item : Item)

theorem read_text {cmd : Text} (hl : ∀ name ∈ item.label, Word.isLabel name)
    (he : item.body.command.elim [] Command.render = cmd)
    (hw : Line.CommandWritten item.body.command cmd) : Line.read item.text = .ok item.line := by
  have htail : Line.Tail [] := ⟨[], [], by simp, rfl, .inl rfl⟩
  refine Line.read_of_written ?_
  unfold text line
  rw [he]
  cases hlabel : item.label
  case none => simpa using Line.Written.mk Line.blanks_nil .none Line.blanks_nil hw htail
  case some name =>
    have hsep : Text.ofString ": " = [':'.toUInt8, ' '.toUInt8] := rfl
    have hw := Line.Written.mk Line.blanks_nil (.some (hl name hlabel)) Line.blanks_space hw htail
    simpa [hsep] using hw

theorem newline_not_mem_text (hl : ∀ name ∈ item.label, Word.isLabel name)
    (hn : '\n'.toUInt8 ∉ item.body.command.elim [] Command.render) : '\n'.toUInt8 ∉ item.text := by
  refine List.not_mem_append ?_ hn
  cases hlabel : item.label
  case none => exact List.not_mem_nil
  case some name =>
    have h := hl name hlabel
    refine List.not_mem_append ?_ (by decide)
    cases name
    case nil => exact List.not_mem_nil
    case cons c name =>
      simp only [Word.isLabel, Bool.and_eq_true, List.all_eq_true] at h
      have hc : c ≠ '\n'.toUInt8 := Byte.ne_of_holds h.left (by decide)
      exact List.not_mem_cons_of_ne_of_not_mem hc.symm
        (newline_not_mem_of_forall (by decide) h.right)

theorem statement?_line {b : Body} (h : ∀ name ∈ b.labels, Referable name)
    (hb : ∀ name ∈ b.bracketed, name.head? ≠ some '.'.toUInt8) (label : Option Text) :
    Line.statement? ⟨label, b.command⟩ = b.statement? ∧
      ∀ c ∈ b.command, ∃ s, c.statement = .ok s := by
  rcases b.sound h hb with ⟨hc, hs⟩ | ⟨c, s, hc, hs, hsound⟩
  case inl => simp [Line.statement?, hc, hs]
  case inr =>
    have hok : c.statement = .ok s :=
      (Command.statement_eq_ok_iff hsound.mnemonic.isAscii).mpr hsound.fits
    simp [Line.statement?, hc, hs, hok, Except.toOption]

theorem ready (hl : ∀ name ∈ item.label, Word.isLabel name)
    (h : ∀ name ∈ item.body.labels, Referable name)
    (hb : ∀ name ∈ item.body.bracketed, name.head? ≠ some '.'.toUInt8) : item.Ready :=
  have ⟨hw, hn⟩ := item.body.written h hb
  have ⟨hs, ha⟩ := statement?_line h hb item.label
  ⟨item.read_text hl rfl hw, item.newline_not_mem_text hl hn, hs, ha⟩

end Item

theorem Valid.ready {items : List Item} (hv : Valid items) : ∀ item ∈ items, item.Ready := by
  intro item hm
  refine item.ready (fun name hn => hv.spelled name ?_) (fun name hn => hv.referable name ?_)
    fun name hn => hv.undotted name ?_
  case refine_1 => exact List.mem_filterMap.mpr ⟨item, hm, hn⟩
  case refine_2 => exact List.mem_flatMap.mpr ⟨item, hm, hn⟩
  case refine_3 => exact List.mem_flatMap.mpr ⟨item, hm, hn⟩

end Abstract

end ByteAsm
