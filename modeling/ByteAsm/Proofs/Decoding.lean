import ByteAsm.Proofs.Debugging

namespace ByteAsm

namespace InstructionSet

-- Goes from the opcode at `ip` to the next one until the code is at its end. The offsets of all
-- opcodes and the one at which the sweep ends, or `none` if an opcode has no encoding.
def sweep (code : List UInt8) (ip : Nat) : Option (List Nat × Nat) :=
  if h : ip < code.length then
    match lookup? code[ip] with
    | none => none
    | some enc => (sweep code (ip + enc.size)).map (Prod.map (ip :: ·) id)
  else some ([], ip)
termination_by code.length - ip
decreasing_by
  simp only [Encoding.size]
  omega

theorem sweep_of_length_le {code : List UInt8} {ip : Nat} (h : code.length ≤ ip) :
    sweep code ip = some ([], ip) := by
  rw [sweep, dif_neg (Nat.not_lt_of_le h)]

theorem sweep_of_lookup? {code : List UInt8} {ip : Nat} {opcode : UInt8} {enc : Encoding}
    (hc : code[ip]? = some opcode) (he : lookup? opcode = some enc) :
    sweep code ip = (sweep code (ip + enc.size)).map (Prod.map (ip :: ·) id) := by
  have ⟨hlt, ho⟩ := List.getElem?_eq_some_iff.mp hc
  rw [sweep, dif_pos hlt, ho, he]

end InstructionSet

-- The encoding that the bytes of a record name is the one that its words ask for.
structure Record.Decodes (r : Record) (enc : Encoding) : Prop where
  encoding : r.encoding? = some enc
  size     : enc.size = r.bytes.length
  mnemonic : r.words.head?.map InstructionSet.canonical = some enc.mnemonic
  words    : r.words.length = 1 + enc.arity
  first    : (Operand.classify (r.words.getD 1 [])).map Operand.kind = .ok enc.first
  second   : (Operand.classify (r.words.getD 2 [])).map Operand.kind = .ok enc.second

open InstructionSet (arity? select sweep lookup?)

theorem Operand.classify_getD {raws : List Text} {ops : List Operand}
    (h : raws.map classify = ops.map .ok) (n : Nat) :
    (classify (raws.getD n [])).map kind = .ok (kindAt ops n) := by
  have hn : classify (raws.getD n []) = .ok (ops.getD n absent) := by
    have hg := congrArg (·[n]?) h
    simp only [List.getElem?_map] at hg
    simp only [List.getD_eq_getElem?_getD]
    cases hr : raws[n]? <;> cases ho : ops[n]? <;> simp_all [classify]
  rw [hn]
  rfl

theorem Record.decodes_of_fits {labels : Table Text Int} {r : Record} {c : Command} {s : Statement}
    (hf : c.Fits s) (hw : r.words = c.words) (hb : r.bytes = s.slots.map (Slot.value labels))
    (hs : r.data = s.isData) (hd : ¬r.data) : ∃ enc, r.Decodes enc := by
  cases hf
  case data => exact absurd hs hd
  case instruction m raws ops enc hm hc hn he =>
    have ⟨hmem, hcanon, h₁, h₂⟩ := InstructionSet.select_eq_ok_iff.mp he
    have hlen := congrArg List.length hc
    have ha := hn.symm.trans (InstructionSet.arity?_of_select hm he)
    simp only [Option.some.injEq] at ha
    simp only [List.length_map] at hlen
    refine ⟨enc, ?_, ?_, ?_, ?_, ?_, ?_⟩
    case refine_1 =>
      simp [encoding?, hd, hb, Statement.slots, Slot.value, InstructionSet.lookup?_opcode enc hmem]
    case refine_2 => simp [hb, Statement.slots, Encoding.size, ha, Nat.add_comm]
    case refine_3 => simp [hw, Command.words, hcanon]
    case refine_4 => simp [hw, Command.words, hlen, ha, Nat.add_comm]
    case refine_5 => simpa [hw, Command.words, h₁] using Operand.classify_getD hc 0
    case refine_6 => simpa [hw, Command.words, h₂] using Operand.classify_getD hc 1

theorem Record.Decodes.opcode {r : Record} {enc : Encoding} (h : r.Decodes enc) :
    ∃ opcode rest, r.bytes = opcode :: rest ∧ lookup? opcode = some enc := by
  have he := h.encoding
  unfold encoding? at he
  split at he <;> try contradiction
  case isFalse =>
    cases hb : r.bytes
    case nil => simp [hb] at he
    case cons opcode rest => exact ⟨opcode, rest, rfl, by simpa [hb] using he⟩

-- The invariant is that the sweep stands where the code read so far, `done`, ends.
theorem Record.Tiles.sweep_eq {records : List Record} {code : List UInt8} {ip : Nat}
    (h : Tiles ip records code) (hd : ∀ r ∈ records, ∃ enc, r.Decodes enc) (done : List UInt8)
    (hip : done.length = ip) :
    ∃ ips : List Nat, sweep (done ++ code) ip = some (ips, (done ++ code).length) ∧
      records.map Record.ip = ips.map Int.ofNat := by
  induction h generalizing done
  case nil =>
    rw [List.append_nil, hip]
    exact ⟨[], InstructionSet.sweep_of_length_le (Nat.le_of_eq hip), rfl⟩
  case cons ip r records code hr hn _ hi =>
    have ⟨⟨enc, he⟩, hd⟩ := List.forall_mem_cons.mp hd
    have ⟨opcode, rest, hb, hl⟩ := he.opcode
    have ⟨ips, hs, hm⟩ := hi hd (done ++ r.bytes) (by simp [hip])
    have hc : (done ++ (r.bytes ++ code))[ip]? = some opcode := by simp [hb, ←hip]
    refine ⟨ip :: ips, ?_, by simp [hr, hm]⟩
    rw [InstructionSet.sweep_of_lookup? hc hl, he.size, ←List.append_assoc, hs]
    rfl

namespace Assembler

theorem decoding_in_step (asm : Assembler) (source : Source) (p : Program)
    (h : asm.assemble source = .ok p) :
    (∀ r ∈ p.records, ¬r.data → ∃ enc, r.Decodes enc) ∧
    ((∀ r ∈ p.records, ¬r.data) → ∃ ips : List Nat,
      sweep p.code 0 = some (ips, p.code.length) ∧
      p.instructions.map Record.ip = ips.map Int.ofNat ∧
      p.mapping.entries.map Prod.fst = ips.map Int.ofNat ∧ ips.Pairwise (· < ·)) := by
  have ⟨lines, d, hr, _, _, hp⟩ := assemble_eq_ok_iff.mp h
  have ht : Record.Tiles 0 p.records p.code := hp ▸ hr.tiles_program d.labels
  have hmap : p.Mapped := hp ▸ Layout.mapped_program d.labels lines
  have hdec : ∀ r ∈ p.records, ¬r.data → ∃ enc, r.Decodes enc := by
    intro r hm hd
    rw [hp, Layout.program_records] at hm
    have ⟨_, _, c, s, _, _, hf, _, hw, hb, hs⟩ := hr.mem_records hm
    exact Record.decodes_of_fits hf hw hb hs hd
  refine ⟨hdec, fun hd => ?_⟩
  have ⟨ips, hs, hm⟩ := ht.sweep_eq (fun r hr => hdec r hr (hd r hr)) [] rfl
  have hi : p.instructions = p.records := List.filter_eq_self.mpr fun r hr => by simp [hd r hr]
  have hlt : (ips.map Int.ofNat).Pairwise (· < ·) := hm ▸ List.pairwise_map.mpr ht.pairwise_ip
  refine ⟨ips, hs, hi ▸ hm, ?_, (List.pairwise_map.mp hlt).imp Int.ofNat_lt.mp⟩
  rw [hmap.keys_eq, hi, hm]

-- Instructions of all three sizes, an alias in lower case, and a reference forward.
theorem decoding_in_step_of_listing :
    let source : Source :=
      { text := Text.ofString "start: MOV A, end\nsal B, 1\n\nJNBE start\nend: HLT" }
    ∃ p ips, assemble {} source = .ok p ∧ p.code = [6, 0, 8, 93, 1, 1, 41, 0, 0] ∧
      (∀ r ∈ p.records, ∃ enc, r.Decodes enc) ∧ sweep p.code 0 = some (ips, 9) ∧
      ips.map Int.ofNat = [0, 3, 6, 8] := by
  intro source
  have h : (assemble {} source).toOption.map (fun p => (p.code, p.records.map Record.data,
      p.instructions.map Record.ip)) = some ([6, 0, 8, 93, 1, 1, 41, 0, 0],
      List.replicate 4 false, [0, 3, 6, 8]) := by
    decide +kernel
  cases ha : assemble {} source
  case error => simp [ha, Except.toOption] at h
  case ok p =>
    simp only [ha, Except.toOption, Option.map_some, Option.some.injEq, Prod.mk.injEq] at h
    obtain ⟨hc, hd, hi⟩ := h
    have hd : ∀ r ∈ p.records, ¬r.data := by
      intro r hr
      have hm : r.data ∈ List.replicate 4 false := hd ▸ List.mem_map_of_mem hr
      simp [List.eq_of_mem_replicate hm]
    obtain ⟨hdec, hsweep⟩ := decoding_in_step {} source p ha
    obtain ⟨ips, hs, hm, _⟩ := hsweep hd
    rw [hc] at hs
    exact ⟨p, ips, rfl, hc, fun r hr => hdec r hr (hd r hr), hc ▸ hs, hm ▸ hi⟩

end Assembler

end ByteAsm
