import ByteAsm.Proofs.Instructions
import ByteAsm.Proofs.Table

namespace ByteAsm.InstructionSet

variable {m m' : Text} {a b : OperandKind} {op op' : UInt8} {enc : Encoding}

-- The opcode of a mnemonic for a pair of operand kinds.
def opcode (m : Text) (a b : OperandKind) : Except Error UInt8 :=
  (select m a b).map Encoding.opcode

-- The table has encodings of the mnemonic.
def Known (m : Text) : Prop :=
  ∃ enc ∈ encodings, enc.mnemonic = canonical m

-- The encodings by their opcodes, where a later one would replace an earlier one.
def reverseTable (order : List Encoding) : Table UInt8 Encoding :=
  .ofEntries (order.map fun enc => (enc.opcode, enc))

theorem lookup?_eq_some_iff : lookup? op = some enc ↔ enc ∈ encodings ∧ enc.opcode = op := by
  constructor
  case mp =>
    intro h
    exact ⟨List.mem_of_find?_eq_some h, by simpa using List.find?_some h⟩
  case mpr =>
    rintro ⟨hm, rfl⟩
    exact lookup?_opcode enc hm

-- No encoding has the opcode of another one, so nothing is replaced.
theorem find?_reverseTable {order : List Encoding} (h : order.Perm encodings) (op : UInt8) :
    (reverseTable order).find? op = lookup? op := by
  have hsame : ∀ x ∈ order.map (fun enc => (enc.opcode, enc)),
      ∀ y ∈ order.map (fun enc => (enc.opcode, enc)), x.1 = y.1 → x = y := by
    simp only [List.forall_mem_map, h.mem_iff]
    intro x hx y hy he
    have hl := lookup?_opcode x hx
    rw [he, lookup?_opcode y hy, Option.some.injEq] at hl
    rw [hl]
  refine Option.ext fun enc => ?_
  rw [reverseTable, Table.find?_ofEntries hsame, lookup?_eq_some_iff, List.mem_map]
  simp only [h.mem_iff, Prod.mk.injEq]
  constructor
  case mp =>
    rintro ⟨_, hm, ho, rfl⟩
    exact ⟨hm, ho⟩
  case mpr =>
    rintro ⟨hm, ho⟩
    exact ⟨enc, hm, ho, rfl⟩

theorem canonical_mnemonic : ∀ enc ∈ encodings, canonical enc.mnemonic = enc.mnemonic := by
  decide +kernel

theorem kinds_ne_numbers :
    ∀ enc ∈ encodings, enc.first ≠ .numbers ∧ enc.second ≠ .numbers := by
  decide +kernel

theorem not_known_data (h : m.upper = data) : ¬Known m := by
  rintro ⟨enc, hm, hc⟩
  have hd : canonical m = data := by
    rw [canonical, h]
    rfl
  exact data_not_named enc hm (hc.trans hd)

theorem ofMnemonic_eq_nil_iff : ofMnemonic m = [] ↔ ¬Known m := by
  simp [Known, ofMnemonic, List.filter_eq_nil_iff]

theorem opcode_of_not_known (h : ¬Known m) : opcode m a b = .error (.unknownMnemonic m) := by
  rw [opcode, select, ofMnemonic_eq_nil_iff.mpr h]
  rfl

theorem opcode_of_known (h : Known m) : (∃ op, opcode m a b = .ok op) ∨
    opcode m a b = .error (.unsupportedOperands m.upper) := by
  unfold opcode select
  split
  case h_1 hn => exact absurd h (ofMnemonic_eq_nil_iff.mp hn)
  case h_2 =>
    split
    case h_1 enc _ => exact .inl ⟨enc.opcode, rfl⟩
    case h_2 => exact .inr rfl

theorem opcode_eq_unknownMnemonic_iff :
    opcode m a b = .error (.unknownMnemonic m) ↔ ¬Known m := by
  refine ⟨fun h hk => ?_, opcode_of_not_known⟩
  obtain ⟨op, ho⟩ | ho := opcode_of_known (a := a) (b := b) hk <;> cases ho.symm.trans h

theorem opcode_eq_unsupportedOperands_iff :
    opcode m a b = .error (.unsupportedOperands m.upper) ↔
      Known m ∧ ∀ op, opcode m a b ≠ .ok op := by
  constructor
  case mp =>
    intro h
    refine ⟨Classical.not_not.mp fun hk => ?_, fun op ho => ?_⟩
    case refine_1 => cases (opcode_of_not_known hk).symm.trans h
    case refine_2 => cases ho.symm.trans h
  case mpr =>
    rintro ⟨hk, hn⟩
    exact (opcode_of_known hk).resolve_left fun ⟨op, ho⟩ => hn op ho

theorem opcode_eq_ok_iff : opcode m a b = .ok op ↔ lookup? op = some ⟨canonical m, op, a, b⟩ := by
  rw [lookup?_eq_some_iff]
  constructor
  case mp =>
    intro h
    unfold opcode at h
    cases hs : select m a b
    case error => simp [hs, Except.map] at h
    case ok enc =>
      rw [hs, Except.map, Except.ok.injEq] at h
      obtain ⟨hm, hc, rfl, rfl⟩ := select_eq_ok_iff.mp hs
      rw [←h, ←hc]
      exact ⟨hm, rfl⟩
  case mpr =>
    intro ⟨hm, _⟩
    rw [opcode, select_eq_ok_iff.mpr ⟨hm, rfl, rfl, rfl⟩]
    rfl

theorem arity?_of_opcode (h : opcode m a b = .ok op) :
    arity? m = some (Encoding.arity ⟨canonical m, op, a, b⟩) := by
  have hl := lookup?_eq_some_iff.mp (opcode_eq_ok_iff.mp h)
  have hs : select m a b = .ok ⟨canonical m, op, a, b⟩ :=
    select_eq_ok_iff.mpr ⟨hl.left, rfl, rfl, rfl⟩
  exact arity?_of_select (fun hd => not_known_data hd ⟨_, hl.left, rfl⟩) hs

theorem opcode_of_lookup? (h : lookup? op = some enc) :
    opcode enc.mnemonic enc.first enc.second = .ok op := by
  obtain ⟨hm, rfl⟩ := lookup?_eq_some_iff.mp h
  rw [opcode_eq_ok_iff, canonical_mnemonic enc hm]
  exact h

theorem opcode_inj {a' b' : OperandKind} (h : opcode m a b = .ok op)
    (h' : opcode m' a' b' = .ok op') :
    op = op' ↔ canonical m = canonical m' ∧ a = a' ∧ b = b' := by
  constructor
  case mp =>
    rintro rfl
    have he := (opcode_eq_ok_iff.mp h).symm.trans (opcode_eq_ok_iff.mp h')
    simp only [Option.some.injEq, Encoding.mk.injEq, true_and] at he
    exact he
  case mpr =>
    rintro ⟨hc, rfl, rfl⟩
    rw [opcode_eq_ok_iff, hc, ←opcode_eq_ok_iff, h'] at h
    exact (Except.ok.inj h).symm

-- The opcode tells canonical mnemonics and kinds apart, and so does the reverse table in whatever
-- order it is filled.
theorem opcode_inverts_lookup :
    (∀ m a b op, opcode m a b = .ok op →
      lookup? op = some ⟨canonical m, op, a, b⟩ ∧
      arity? m = some (Encoding.arity ⟨canonical m, op, a, b⟩) ∧
      a ≠ .numbers ∧ b ≠ .numbers) ∧
    (∀ op enc, lookup? op = some enc → opcode enc.mnemonic enc.first enc.second = .ok op) ∧
    (∀ m a b op m' a' b' op', opcode m a b = .ok op → opcode m' a' b' = .ok op' →
      (op = op' ↔ canonical m = canonical m' ∧ a = a' ∧ b = b')) ∧
    (∀ m a b,
      (opcode m a b = .error (.unknownMnemonic m) ↔ ¬Known m) ∧
      (opcode m a b = .error (.unsupportedOperands m.upper) ↔
        Known m ∧ ∀ op, opcode m a b ≠ .ok op)) ∧
    (∀ m, m.upper = data → ¬Known m) ∧
    ∀ order, order.Perm encodings → ∀ op, (reverseTable order).find? op = lookup? op := by
  refine ⟨fun m a b op h => ?_, fun op enc => opcode_of_lookup?,
    fun m a b op m' a' b' op' => opcode_inj,
    fun m a b => ⟨opcode_eq_unknownMnemonic_iff, opcode_eq_unsupportedOperands_iff⟩,
    fun m => not_known_data, fun order => find?_reverseTable⟩
  have hl := opcode_eq_ok_iff.mp h
  exact ⟨hl, arity?_of_opcode h, kinds_ne_numbers _ (lookup?_eq_some_iff.mp hl).left⟩

-- An alias of a jump, a mnemonic whose first letter has its upper case in ASCII, an operand that no
-- instruction takes, and data, for which there is no opcode.
theorem opcode_inverts_lookup_of_spellings :
    let jump := Text.ofString "jnae"
    let shift := Text.ofString "ſal"
    let data := Text.ofString "db"
    lookup? 33 = some ⟨Text.ofString "JC", 33, .number, .none⟩ ∧ arity? jump = some 1 ∧
      opcode (Text.ofString "SHL") .register .number = .ok 93 ∧
      (∀ m a b, opcode m a b = .ok 93 →
        canonical m = canonical shift ∧ a = .register ∧ b = .number) ∧
      opcode shift .register .numbers = .error (.unsupportedOperands (Text.ofString "SAL")) ∧
      opcode data .number .none = .error (.unknownMnemonic data) ∧
      (reverseTable encodings.reverse).find? 33 = lookup? 33 := by
  intro jump shift data
  have hjump : canonical jump = Text.ofString "JC" := by decide +kernel
  have hshift : canonical shift = Text.ofString "SHL" := by decide +kernel
  have hupper : shift.upper = Text.ofString "SAL" := by decide +kernel
  have hj : opcode jump .number .none = .ok 33 :=
    opcode_eq_ok_iff.mpr (hjump ▸ by decide +kernel)
  have hs : opcode shift .register .number = .ok 93 :=
    opcode_eq_ok_iff.mpr (hshift ▸ by decide +kernel)
  obtain ⟨hlookup, hselect, hinj, herror, hdata, htable⟩ := opcode_inverts_lookup
  obtain ⟨hl, ha, -⟩ := hlookup jump .number .none 33 hj
  obtain ⟨hl', -⟩ := hlookup shift .register .number 93 hs
  have hknown : Known shift := ⟨_, (lookup?_eq_some_iff.mp hl').left, rfl⟩
  rw [hjump] at hl
  rw [hshift] at hl'
  refine ⟨hl, ha, hselect 93 _ hl', fun m a b h => ?_, ?_, ?_, ?_⟩
  case refine_1 => exact (hinj m a b 93 shift .register .number 93 h hs).mp rfl
  case refine_2 =>
    have hn : ∀ op, opcode shift .register .numbers ≠ .ok op :=
      fun op ho => (hlookup _ _ _ op ho).right.right.right rfl
    rw [←hupper]
    exact (herror shift .register .numbers).right.mpr ⟨hknown, hn⟩
  case refine_3 => exact (herror data .number .none).left.mpr (hdata data (by decide +kernel))
  case refine_4 => exact htable _ (List.reverse_perm encodings) 33

end ByteAsm.InstructionSet
