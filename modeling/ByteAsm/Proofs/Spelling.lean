import ByteAsm.Proofs.Classification
import ByteAsm.Proofs.Instructions
import ByteAsm.Proofs.SideBySide

namespace ByteAsm

open Abstract (Integer Sign)
open Text (inBrackets)

-- The same operand, or the same register or address in a register in two spellings.
inductive Operand.Respelled : Text → Text → Prop
  | refl {raw : Text} : Respelled raw raw
  | register {r : Register} {w w' : Text} : w.upper = r.name → w'.upper = r.name → Respelled w w'
  | indirect {r : Register} {w w' : Text} : w.upper = r.name → w'.upper = r.name →
    Respelled (inBrackets w) (inBrackets w')
  | displaced {r : Register} {w w' : Text} (s : Sign) (n : Integer 10) : w.upper = r.name →
    w'.upper = r.name →
    Respelled (inBrackets (w ++ s.byte :: n.text)) (inBrackets (w' ++ s.byte :: n.text))

structure Command.Respelled (c c' : Command) : Prop where
  mnemonic : InstructionSet.canonical c'.mnemonic = InstructionSet.canonical c.mnemonic
  operands : List.Forall₂ Operand.Respelled c.operands c'.operands

structure Line.Respelled (line line' : Line) : Prop where
  label   : line'.label = line.label
  command : Option.Rel Command.Respelled line.command line'.command

-- Lines of a source that are read as lines in two spellings, or not at all.
structure Line.Respells (raw raw' : Text) : Prop where
  reads : Alike Eq Respelled (read (Source.content raw)) (read (Source.content raw'))
  short : Source.lineLimit ≤ raw.length ↔ Source.lineLimit ≤ raw'.length

-- The kind of an error, without the mnemonic it names and the text of its line.
def Error.unspelled : Error → Error
  | unknownMnemonic _ => unknownMnemonic []
  | unsupportedOperands _ => unsupportedOperands []
  | tooManyOperands _ => tooManyOperands []
  | onLine n _ cause => onLine n [] cause.unspelled
  | e => e

def Extent.unspelled (e : Extent) : Extent :=
  { e with words := [] }

def Record.unspelled (r : Record) : Record :=
  { r with words := [] }

def Draft.unspelled (d : Draft) : Draft :=
  { d with extents := d.extents.map Extent.unspelled }

def Program.unspelled (p : Program) : Program :=
  { p with records := p.records.map Record.unspelled }

def Error.SameKind (e e' : Error) : Prop :=
  e'.unspelled = e.unspelled

-- The same results up to spelling, or errors of the same kind.
abbrev AlikeUnspelled {α : Type} (unspelled : α → α) :
    Except Error α → Except Error α → Prop :=
  Alike Error.SameKind (fun a a' => unspelled a' = unspelled a)

theorem AlikeUnspelled.of_map_eq {α : Type} {unspelled : α → α} {x y : Except Error α}
    (h : y.map unspelled = x.map unspelled) : AlikeUnspelled unspelled x y := by
  cases x <;> cases y
  case error.error => exact .error (Except.error.inj h ▸ rfl)
  case ok.ok => exact .ok (Except.ok.inj h)
  all_goals contradiction

theorem Line.Respells.of_read {raw raw' : Text} {line line' : Line}
    (hr : read (Source.content raw) = .ok line) (hr' : read (Source.content raw') = .ok line')
    (h : line.Respelled line') (hs : raw.length < Source.lineLimit)
    (hs' : raw'.length < Source.lineLimit) : Respells raw raw' where
  reads := by
    rw [hr, hr']
    exact .ok h
  short := iff_of_false (Nat.not_le_of_lt hs) (Nat.not_le_of_lt hs')

namespace Operand

variable {w : Text} {r : Register}

theorem classify_register (h : w.upper = r.name) :
    classify w = .ok { kind := .register, value := r.id } := by
  have hw : ofWord w = .ok { kind := .register, value := r.id } := by
    rw [ofWord, Register.ofWord?_of_upper h]
  cases w
  case nil => cases r <;> contradiction
  case cons c rest =>
    -- Brackets and quotes have no case, and no register has one in its name.
    have hne {x : UInt8} (hu : Text.upper [x] = [x]) (ha : Text.isAscii [x])
        (hx : ¬Byte.isLetter x) : c ≠ x := by
      rintro rfl
      have hm : c ∈ r.name := by
        rw [←h, ←List.singleton_append, Text.upper_append (hu.symm ▸ ha), hu]
        exact List.mem_cons_self
      exact hx (r.isLetter_name c hm)
    have hb : c ≠ '['.toUInt8 := hne (by decide) (by decide) (by decide)
    have hs : c ≠ '"'.toUInt8 := hne (by decide) (by decide) (by decide)
    have hq : c ≠ '\''.toUInt8 := hne (by decide) (by decide) (by decide)
    simp only [classify, beq_iff_eq, if_neg hb, if_neg hs, if_neg hq, hw]

theorem Respelled.classify_eq {raw raw' : Text} (h : Respelled raw raw') :
    classify raw' = classify raw := by
  cases h
  case refl => rfl
  case register hw hw' => rw [classify_register hw, classify_register hw']
  case indirect hw hw' => rw [classify_indirect hw, classify_indirect hw']
  case displaced s n hw hw' => rw [classify_displaced hw, classify_displaced hw']

theorem classifyAll_respelled {raws raws' : List Text} (h : List.Forall₂ Respelled raws raws') :
    classifyAll raws' = classifyAll raws := by
  induction h
  case nil => rfl
  case cons hr _ hi => rw [classifyAll, classifyAll, hr.classify_eq, hi]

end Operand

namespace InstructionSet

variable {m m' : Text}

-- No alias is or stands for the mnemonic of data.
theorem upper_eq_data_iff : m.upper = data ↔ canonical m = data := by
  unfold canonical
  constructor
  case mp =>
    intro h
    rw [h]
    decide +kernel
  case mpr =>
    intro h
    cases hl : aliases.lookup m.upper <;> rw [hl] at h
    case none => exact h
    case some name =>
      have hn : ∀ entry ∈ aliases, entry.2 ≠ data := by decide +kernel
      obtain ⟨above, below, he, _⟩ := List.lookup_eq_some_iff.mp hl
      exact absurd h (hn (m.upper, name) (he ▸ List.mem_append_right _ List.mem_cons_self))

theorem arity?_of_canonical (h : canonical m' = canonical m) : arity? m' = arity? m := by
  simp only [arity?, upper_eq_data_iff, ofMnemonic_eq, h]

theorem select_of_canonical (h : canonical m' = canonical m) (first second : OperandKind) :
    Alike Error.SameKind Eq (select m first second) (select m' first second) := by
  simp only [select, ofMnemonic_eq, h]
  split
  case h_1 => exact .error rfl
  case h_2 =>
    split
    case h_1 => exact .ok rfl
    case h_2 => exact .error rfl

end InstructionSet

-- Commands in two spellings are the same statement.
theorem Command.Respelled.statement {c c' : Command} (h : c.Respelled c')
    (ha : c.mnemonic.isAscii) (ha' : c'.mnemonic.isAscii) :
    Alike Error.SameKind Eq c.statement c'.statement := by
  have hd : c'.mnemonic.upper = InstructionSet.data ↔ c.mnemonic.upper = InstructionSet.data := by
    rw [InstructionSet.upper_eq_data_iff, InstructionSet.upper_eq_data_iff, h.mnemonic]
  have hs : InstructionSet.canonical c'.mnemonic.upper =
      InstructionSet.canonical c.mnemonic.upper := by
    rw [InstructionSet.canonical_upper ha, InstructionSet.canonical_upper ha', h.mnemonic]
  simp only [Command.statement, InstructionSet.arity?_of_canonical h.mnemonic, hd,
    ←h.operands.length_eq]
  cases InstructionSet.arity? c.mnemonic <;> dsimp only
  case none => exact .error rfl
  case some n =>
    rw [Operand.classifyAll_respelled (List.forall₂_take n h.operands)]
    cases Operand.classifyAll (c.operands.take n) <;> dsimp only
    case error => exact .error rfl
    case ok ops =>
      split
      case isTrue => exact .error rfl
      case isFalse =>
        split
        case isTrue =>
          cases Statement.ofData ops
          case error => exact .error rfl
          case ok => exact .ok rfl
        case isFalse =>
          rw [Statement.ofOperands_eq, Statement.ofOperands_eq]
          exact (InstructionSet.select_of_canonical hs _ _).map fun _ _ he => he ▸ rfl

namespace Draft

variable {d d' : Draft}

theorem unspelled_place (d : Draft) (n : Nat) (words : List Text) (s : Statement) :
    (d.place n words s).unspelled = d.unspelled.place n [] s := by
  simp only [place_eq, unspelled, Array.map_push]
  rfl

theorem unspelled_defineAny (d : Draft) (label : Option Text) :
    (d.defineAny label).map unspelled = d.unspelled.defineAny label := by
  cases label
  case none => rfl
  case some name =>
    simp only [defineAny, define, unspelled, apply_ite (Except.map _)]
    rfl

theorem unspelled_link (d : Draft) : d.link.map Program.unspelled = d.unspelled.link := by
  simp only [link, unspelled]
  cases patch d.labels d.relocations.toList d.code
  case error => rfl
  case ok code =>
    simp only [Except.map, Program.unspelled, Array.toList_map, List.map_map]
    rfl

theorem placeAny_respelled {c c' : Command} (h : c.Respelled c') (ha : c.mnemonic.isAscii)
    (ha' : c'.mnemonic.isAscii) (hd : d'.unspelled = d.unspelled) (n : Nat) :
    AlikeUnspelled unspelled (d.placeAny n (some c)) (d'.placeAny n (some c')) := by
  refine (h.statement ha ha').map fun s s' hs => ?_
  rw [unspelled_place, unspelled_place, hd, hs]

theorem add_respelled {t t' : Text} {line line' : Line} (hr : Line.read t = .ok line)
    (hr' : Line.read t' = .ok line') (h : line.Respelled line') (hd : d'.unspelled = d.unspelled)
    (n : Nat) : AlikeUnspelled unspelled (d.add n line) (d'.add n line') := by
  rw [add_eq_bind, add_eq_bind, h.label]
  have hl : AlikeUnspelled unspelled (d.defineAny line.label) (d'.defineAny line.label) :=
    AlikeUnspelled.of_map_eq (by rw [unspelled_defineAny, unspelled_defineAny, hd])
  refine hl.bind fun d d' hd => ?_
  have hrel := h.command
  cases hc : line.command <;> cases hc' : line'.command <;> rw [hc, hc'] at hrel <;> cases hrel
  case none.none => exact .ok hd
  case some.some hrel =>
    exact placeAny_respelled hrel (Line.isAscii_mnemonic (Line.written_of_read hr) hc)
      (Line.isAscii_mnemonic (Line.written_of_read hr') hc') hd n

theorem addRaw_respells {raw raw' : Text} (hm : ¬Expansion.hasMark (Source.content raw))
    (hm' : ¬Expansion.hasMark (Source.content raw')) (h : Line.Respells raw raw')
    (hd : d'.unspelled = d.unspelled) (asm : Assembler) (n : Nat) :
    AlikeUnspelled unspelled (addRaw asm n raw d) (addRaw asm n raw' d') := by
  rw [addRaw_of_not_hasMark hm, addRaw_of_not_hasMark hm']
  simp only [←h.short]
  split
  case isTrue => exact .error rfl
  case isFalse =>
    have ha : AlikeUnspelled unspelled (Line.read (Source.content raw) >>= d.add n)
        (Line.read (Source.content raw') >>= d'.add n) := by
      have hreads := h.reads
      cases hr : Line.read (Source.content raw) <;>
        cases hr' : Line.read (Source.content raw') <;> rw [hr, hr'] at hreads <;> cases hreads
      case error.error he => exact .error (he ▸ rfl)
      case ok.ok hl => exact add_respelled hr hr' hl hd n
    exact ha.mapError fun e e' he => congrArg (Error.onLine n []) he

end Draft

namespace Draft

structure SameButWords (d d' : Draft) : Prop where
  code        : d'.code = d.code
  relocations : d'.relocations = d.relocations
  mapping     : d'.mapping = d.mapping
  labels      : d'.labels = d.labels
  normalized  : d'.normalized = d.normalized
  extents     : d'.extents.map Extent.unspelled = d.extents.map Extent.unspelled

theorem sameButWords_of_unspelled {d d' : Draft} (h : d'.unspelled = d.unspelled) :
    SameButWords d d' where
  code        := (congrArg code h :)
  relocations := (congrArg relocations h :)
  mapping     := (congrArg mapping h :)
  labels      := (congrArg labels h :)
  normalized  := (congrArg normalized h :)
  extents     := (congrArg extents h :)

end Draft

namespace Assembler

theorem assemble_respells {source source' : Source} (hm : ¬Expansion.hasMark source.text)
    (hm' : ¬Expansion.hasMark source'.text)
    (hr : List.Forall₂ Line.Respells (Source.lines source.text) (Source.lines source'.text))
    (hf : source'.failure = source.failure) (asm : Assembler) :
    AlikeUnspelled Program.unspelled (asm.assemble source) (asm.assemble source') := by
  obtain ⟨hlen, hr⟩ := List.forall₂_iff_zip.mp hr
  have hlines : AlikeUnspelled Draft.unspelled
      (Draft.addLines asm 0 (Source.lines source.text) {})
      (Draft.addLines asm 0 (Source.lines source'.text) {}) := by
    refine Draft.addLines_alike 0 0 ?_ (Nat.le_refl 0) rfl
    refine List.forall₂_iff_zip.mpr ⟨hlen, fun hz n d d' _ hd => ?_⟩
    obtain ⟨hraw, hraw'⟩ := List.of_mem_zip hz
    exact Draft.addRaw_respells (Source.not_hasMark_content hm hraw)
      (Source.not_hasMark_content hm' hraw') (hr hz) hd asm n
  refine assemble_alike hlines hf (fun failure => hlen ▸ .refl _) fun d d' hd => ?_
  exact AlikeUnspelled.of_map_eq (by rw [Draft.unspelled_link, Draft.unspelled_link, hd])

-- Commands in two spellings have the same code in every draft, and so have sources of such lines,
-- or both fail with the same kind of error.
theorem assemble_respelled :
    (∀ (d : Draft) (n : Nat) (t t' : Text) (line line' : Line) (c c' : Command),
      Line.read t = .ok line → Line.read t' = .ok line' → line.command = some c →
      line'.command = some c' → c.Respelled c' →
      Alike Error.SameKind Draft.SameButWords (d.placeAny n (some c)) (d.placeAny n (some c'))) ∧
    ∀ (asm : Assembler) (source source' : Source), ¬Expansion.hasMark source.text →
      ¬Expansion.hasMark source'.text →
      List.Forall₂ Line.Respells (Source.lines source.text) (Source.lines source'.text) →
      source'.failure = source.failure →
      (∀ p, asm.assemble source = .ok p → ∃ p', asm.assemble source' = .ok p' ∧
        p'.code = p.code ∧ p'.labels = p.labels ∧ p'.mapping = p.mapping ∧
        p'.records.map Record.unspelled = p.records.map Record.unspelled) ∧
      ∀ e, asm.assemble source = .error e →
        ∃ e', asm.assemble source' = .error e' ∧ e.SameKind e' := by
  constructor
  case left =>
    intro d n t t' line line' c c' hr hr' hc hc' h
    have ha := Line.isAscii_mnemonic (Line.written_of_read hr) hc
    have ha' := Line.isAscii_mnemonic (Line.written_of_read hr') hc'
    exact (Draft.placeAny_respelled h ha ha' rfl n).imp fun _ _ => Draft.sameButWords_of_unspelled
  case right =>
    intro asm source source' hm hm' hr hf
    have h := assemble_respells hm hm' hr hf asm
    refine ⟨fun p hp => ?_, fun e he => (he ▸ h).of_error⟩
    obtain ⟨p', hp', he⟩ := (hp ▸ h).of_ok
    exact ⟨p', hp', (congrArg Program.code he :), (congrArg Program.labels he :),
      (congrArg Program.mapping he :), (congrArg Program.records he :)⟩

-- A jump under two names, and a register with an offset. The jump refuses an address under either
-- name.
theorem assemble_respelled_of_listing :
    let source : Source := { text := Text.ofString "x: MOV A, [SP-3]\nJC x\n" }
    let source' : Source := { text := Text.ofString "x: mov a,[sp-3] ; top\nJnae x" }
    let c : Command := ⟨Text.ofString "JB", [Text.ofString "[B]"]⟩
    let c' : Command := ⟨Text.ofString "jc", [Text.ofString "[b]"]⟩
    let e := Error.unsupportedOperands (Text.ofString "JB")
    (∃ p p', assemble {} source = .ok p ∧ assemble {} source' = .ok p' ∧
      p.code = [3, 0, 236, 33, 0] ∧ p'.code = p.code ∧ p'.labels = p.labels ∧
      p'.mapping = p.mapping) ∧
    Draft.placeAny {} 0 (some c) = .error e ∧
      ∃ e', Draft.placeAny {} 0 (some c') = .error e' ∧ e.SameKind e' := by
  intro source source' c c' e
  obtain ⟨hlines, hsources⟩ := assemble_respelled
  let x := Text.ofString "x"
  let three : Integer 10 := ⟨none, [⟨3, by decide, false⟩], by simp⟩
  have ha : Operand.Respelled (Text.ofString "A") (Text.ofString "a") :=
    @Operand.Respelled.register .a _ _ (by decide +kernel) (by decide +kernel)
  have hb : Operand.Respelled (Text.ofString "[B]") (Text.ofString "[b]") :=
    @Operand.Respelled.indirect .b (Text.ofString "B") (Text.ofString "b") (by decide +kernel)
      (by decide +kernel)
  have hd : Operand.Respelled (Text.ofString "[SP-3]") (Text.ofString "[sp-3]") :=
    @Operand.Respelled.displaced .sp (Text.ofString "SP") (Text.ofString "sp") .minus three
      (by decide +kernel) (by decide +kernel)
  constructor
  case left =>
    have hl : Source.lines source.text =
      [Text.ofString "x: MOV A, [SP-3]", Text.ofString "JC x"] := by decide +kernel
    have hl' : Source.lines source'.text =
      [Text.ofString "x: mov a,[sp-3] ; top", Text.ofString "Jnae x"] := by decide +kernel
    have hmove : Line.Respells (Text.ofString "x: MOV A, [SP-3]")
        (Text.ofString "x: mov a,[sp-3] ; top") := by
      let line : Line :=
        ⟨some x, some ⟨Text.ofString "MOV", [Text.ofString "A", Text.ofString "[SP-3]"]⟩⟩
      let line' : Line :=
        ⟨some x, some ⟨Text.ofString "mov", [Text.ofString "a", Text.ofString "[sp-3]"]⟩⟩
      have h : line.Respelled line' :=
        ⟨rfl, .some ⟨by decide +kernel, .cons ha (.cons hd .nil)⟩⟩
      exact .of_read (by decide +kernel) (by decide +kernel) h (by decide) (by decide)
    have hjump : Line.Respells (Text.ofString "JC x") (Text.ofString "Jnae x") := by
      let line : Line := ⟨none, some ⟨Text.ofString "JC", [x]⟩⟩
      let line' : Line := ⟨none, some ⟨Text.ofString "Jnae", [x]⟩⟩
      have h : line.Respelled line' := ⟨rfl, .some ⟨by decide +kernel, .cons .refl .nil⟩⟩
      exact .of_read (by decide +kernel) (by decide +kernel) h (by decide) (by decide)
    have hcode : (assemble {} source).toOption.map Program.code = some [3, 0, 236, 33, 0] := by
      decide +kernel
    cases hp : assemble {} source
    case error => simp [hp, Except.toOption] at hcode
    case ok p =>
      simp only [hp, Except.toOption, Option.map_some, Option.some.injEq] at hcode
      obtain ⟨hok, _⟩ := hsources {} source source' (by decide +kernel) (by decide +kernel)
        (by rw [hl, hl']; exact .cons hmove (.cons hjump .nil)) rfl
      obtain ⟨p', hp', hc, hlabels, hm, _⟩ := hok p hp
      exact ⟨p, p', rfl, hp', hcode, hc, hlabels, hm⟩
  case right =>
    have he : Draft.placeAny {} 0 (some c) = .error e := by rfl
    have h := hlines {} 0 (Text.ofString "JB [B]") (Text.ofString "y: jc [b]") ⟨none, some c⟩
      ⟨some (Text.ofString "y"), some c'⟩ c c' (by decide +kernel) (by decide +kernel) rfl rfl
      ⟨by decide +kernel, .cons hb .nil⟩
    rw [he] at h
    exact ⟨he, h.of_error⟩

end Assembler

end ByteAsm
