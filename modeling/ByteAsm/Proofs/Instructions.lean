import ByteAsm.Proofs.Bytes
import ByteAsm.Statement

namespace ByteAsm

namespace InstructionSet

variable {m : Text} {first second : OperandKind} {enc enc' : Encoding}

-- The encodings under a canonical name.
def named (name : Text) : List Encoding :=
  encodings.filter (·.mnemonic = name)

theorem ofMnemonic_eq (m : Text) : ofMnemonic m = named (canonical m) :=
  rfl

theorem mem_named {name : Text} : enc ∈ named name ↔ enc ∈ encodings ∧ enc.mnemonic = name := by
  simp [named]

-- The facts below are read off the table, an entry at a time.
theorem find?_named : ∀ enc ∈ encodings,
    (named enc.mnemonic).find? (fun e => e.first = enc.first ∧ e.second = enc.second) =
      some enc := by
  decide +kernel

theorem head?_named_arity : ∀ enc ∈ encodings,
    (named enc.mnemonic).head?.map Encoding.arity = some enc.arity := by
  decide +kernel

theorem second_eq_none_of_first : ∀ enc ∈ encodings, enc.first = .none → enc.second = .none := by
  decide +kernel

theorem data_not_named : ∀ enc ∈ encodings, enc.mnemonic ≠ data := by
  decide +kernel

-- Each opcode belongs to one encoding.
theorem lookup?_opcode : ∀ enc ∈ encodings, lookup? enc.opcode = some enc := by
  decide +kernel

theorem select_eq_ok_iff : select m first second = .ok enc ↔
    enc ∈ encodings ∧ enc.mnemonic = canonical m ∧ enc.first = first ∧ enc.second = second := by
  rw [select, ofMnemonic_eq]
  constructor
  case mp =>
    intro h
    split at h <;> try contradiction
    split at h <;> try contradiction
    case h_1 enc' hf =>
      cases h
      have hm := mem_named.mp (List.mem_of_find?_eq_some hf)
      have hk := List.find?_some hf
      simp only [decide_eq_true_eq] at hk
      exact ⟨hm.left, hm.right, hk⟩
  case mpr =>
    intro ⟨hm, hc, hf, hs⟩
    have h := find?_named enc hm
    rw [hc, hf, hs] at h
    split
    case h_1 hn => simp [hn] at h
    case h_2 => simp only [h]

theorem arity?_of_select (hd : m.upper ≠ data) (h : select m first second = .ok enc) :
    arity? m = some enc.arity := by
  have ⟨hm, hc, _⟩ := select_eq_ok_iff.mp h
  rw [arity?, if_neg hd, ofMnemonic_eq, ←hc]
  exact head?_named_arity enc hm

theorem canonical_upper (h : m.isAscii) : canonical m.upper = canonical m := by
  rw [canonical, canonical, Text.upper_upper h]

theorem select_upper (h : m.isAscii) (first second : OperandKind) :
    select m.upper first second = .ok enc ↔ select m first second = .ok enc := by
  rw [select_eq_ok_iff, select_eq_ok_iff, canonical_upper h]

end InstructionSet

open InstructionSet (arity? select)

variable {raws : List Text} {ops : List Operand} {c : Command} {s : Statement} {enc : Encoding}

theorem Operand.classifyAll_eq_ok_iff :
    classifyAll raws = .ok ops ↔ raws.map classify = ops.map .ok := by
  induction raws generalizing ops
  case nil => cases ops <;> simp [classifyAll]
  case cons raw raws hi =>
    simp only [classifyAll]
    cases hc : classify raw
    case error => cases ops <;> simp [hc]
    case ok op =>
      cases ha : classifyAll raws
      case error =>
        cases ops
        case nil => simp
        case cons op' ops =>
          have hn : raws.map classify ≠ ops.map .ok := fun h => by simp [hi.mpr h] at ha
          simp [hn]
      case ok ops' =>
        have he := hi.mp ha
        cases ops <;> simp [hc, he, List.map_inj_right]

-- The kind of an operand by its place. There is none behind the last operand.
def Operand.kindAt (ops : List Operand) (n : Nat) : OperandKind :=
  (ops.getD n absent).kind

theorem Operand.lt_length_of_kindAt {n : Nat} (h : kindAt ops n ≠ .none) : n < ops.length := by
  refine Nat.lt_of_not_le fun hn => h ?_
  simp [kindAt, List.getElem?_eq_none hn, absent]

-- An instruction has no fewer operands than its encoding: a missing one is of no kind.
theorem Encoding.arity_le (hm : enc ∈ InstructionSet.encodings)
    (h₁ : Operand.kindAt ops 0 = enc.first) (h₂ : Operand.kindAt ops 1 = enc.second) :
    enc.arity ≤ ops.length := by
  have hs := InstructionSet.second_eq_none_of_first enc hm
  by_cases hk₂ : enc.second = .none
  case neg =>
    have hl := Operand.lt_length_of_kindAt (h₂ ▸ hk₂)
    have ha : enc.arity ≤ 2 := List.countP_le_length
    omega
  case pos =>
    by_cases hk₁ : enc.first = .none
    case pos => simp [arity, hk₁, hk₂]
    case neg =>
      have hl := Operand.lt_length_of_kindAt (h₁ ▸ hk₁)
      have ha : enc.arity = 1 := by simp [arity, hk₁, hk₂]
      omega

-- A command as the instruction set takes it. Data has one operand, a number or a string.
inductive Command.Fits : Command → Statement → Prop
  | data {m raw : Text} {op : Operand} : m.upper = InstructionSet.data →
    Operand.classify raw = .ok op → (op.kind = .number ∨ op.kind = .numbers) →
    Fits ⟨m, [raw]⟩ (.data op)
  | instruction {m : Text} {raws : List Text} {ops : List Operand} {enc : Encoding} :
    m.upper ≠ InstructionSet.data → raws.map Operand.classify = ops.map .ok →
    arity? m = some ops.length →
    select m (Operand.kindAt ops 0) (Operand.kindAt ops 1) = .ok enc →
    Fits ⟨m, raws⟩ (.instruction enc ops)

theorem Statement.ofData_eq_ok (h : ofData ops = .ok s) :
    ∃ op, ops = [op] ∧ (op.kind = .number ∨ op.kind = .numbers) ∧ s = .data op := by
  unfold ofData at h
  split at h <;> try contradiction
  case h_1 op =>
    split at h <;> cases h
    case isTrue hk => exact ⟨op, rfl, hk, rfl⟩

theorem Statement.ofOperands_eq (m : Text) (ops : List Operand) : ofOperands m ops =
    (select m (Operand.kindAt ops 0) (Operand.kindAt ops 1)).map (.instruction · ops) :=
  rfl

theorem Statement.ofOperands_eq_ok_iff {m : Text} : ofOperands m ops = .ok s ↔
    ∃ enc, select m (Operand.kindAt ops 0) (Operand.kindAt ops 1) = .ok enc ∧
      s = .instruction enc ops := by
  rw [ofOperands_eq]
  cases select m (Operand.kindAt ops 0) (Operand.kindAt ops 1) <;> simp [Except.map, eq_comm]

namespace Command

theorem fits_of_statement (ha : c.mnemonic.isAscii) (h : c.statement = .ok s) : Fits c s := by
  unfold statement at h
  split at h <;> try contradiction
  case h_2 n hn =>
    split at h <;> try contradiction
    case h_2 ops hc =>
      split at h <;> try contradiction
      case isFalse hl =>
        -- No operand is superfluous, so all of them were classified.
        rw [List.take_of_length_le (Nat.le_of_not_lt hl), Operand.classifyAll_eq_ok_iff] at hc
        have hlen := congrArg List.length hc
        simp only [List.length_map] at hlen
        obtain ⟨m, raws⟩ := c
        split at h
        case isTrue hd =>
          have ⟨op, ho, hk, hs⟩ := Statement.ofData_eq_ok h
          subst ho hs
          have ⟨raw, hr, hop⟩ := List.map_eq_singleton_iff.mp hc
          subst hr
          exact .data hd hop hk
        case isFalse hd =>
          have ⟨enc, he, hs⟩ := Statement.ofOperands_eq_ok_iff.mp h
          have he := (InstructionSet.select_upper ha _ _).mp he
          have ⟨hm, _, h₁, h₂⟩ := InstructionSet.select_eq_ok_iff.mp he
          have hle := Encoding.arity_le hm h₁.symm h₂.symm
          rw [InstructionSet.arity?_of_select hd he, Option.some.injEq] at hn
          subst hs
          refine .instruction hd hc ?_ he
          rw [InstructionSet.arity?_of_select hd he, Option.some.injEq]
          omega

theorem Fits.statement_eq_ok (ha : c.mnemonic.isAscii) (h : Fits c s) : c.statement = .ok s := by
  cases h
  case data m raw op hd hc hk =>
    simp [statement, arity?, hd, Operand.classifyAll, hc, Statement.ofData, hk]
  case instruction m raws ops enc hd hc hn he =>
    have hlen := congrArg List.length hc
    simp only [List.length_map] at hlen
    rw [←Operand.classifyAll_eq_ok_iff] at hc
    have he := (InstructionSet.select_upper ha _ _).mpr he
    have ho := Statement.ofOperands_eq_ok_iff.mpr ⟨enc, he, rfl⟩
    simp only [statement, hn, ←hlen, List.take_length, hc, Nat.lt_irrefl, if_false, if_neg hd, ho]

theorem statement_eq_ok_iff (ha : c.mnemonic.isAscii) : c.statement = .ok s ↔ Fits c s :=
  ⟨fits_of_statement ha, Fits.statement_eq_ok ha⟩

end Command

end ByteAsm
