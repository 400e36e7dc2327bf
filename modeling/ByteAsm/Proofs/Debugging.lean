import ByteAsm.Proofs.Tiling

namespace ByteAsm

-- One of the bytes of the record stands at the offset.
def Record.Covers (r : Record) (ip : Int) : Prop :=
  r.ip ≤ ip ∧ ip < r.ip + r.bytes.length

instance Record.decidableCovers (r : Record) (ip : Int) : Decidable (r.Covers ip) :=
  inferInstanceAs (Decidable (_ ∧ _))

-- All records with a byte at the offset.
def Program.covering (p : Program) (ip : Int) : List Record :=
  p.records.filter (Record.Covers · ip)

-- The three views of a program: the record at an offset, the line of an offset, and the
-- instructions one after the other.
structure Program.ViewsAgree (p : Program) : Prop where
  found     : ∀ ip, (p.debug? ip).isSome ↔ 0 ≤ ip ∧ ip < p.code.length
  covers    : ∀ ip r i, p.debug? ip = some (r, i) → p.covering ip = [r]
  byte      : ∀ ip r i, p.debug? ip = some (r, i) →
    0 ≤ i ∧ ∃ b, r.bytes[i.toNat]? = some b ∧ p.code[ip.toNat]? = some b
  lineOf    : ∀ ip n, p.lineOf? ip = some n ↔
    ∃ r, p.debug? ip = some (r, 0) ∧ ¬r.data ∧ r.line = n
  starts    : p.instructions.map Record.ip = p.mapping.entries.map Prod.fst
  ascending : p.instructions.Pairwise fun r r' => r.ip < r'.ip
  lines     : ∀ r ∈ p.instructions, p.mapping.find? r.ip = some r.line
  monotone  : ∀ ip ip' n n', p.mapping.find? ip = some n → p.mapping.find? ip' = some n' →
    ip < ip' → n < n'

-- Offsets that fit a signed 64-bit word do not wrap.
theorem Record.stop_eq {r : Record} (h₀ : 0 ≤ r.ip)
    (h : r.ip + r.bytes.length < 0x8000000000000000) : r.stop = r.ip + r.bytes.length :=
  Int.bmod_eq_of_le (by omega) (by omega)

namespace Record.Tiles

variable {start : Nat} {records : List Record} {code : List UInt8} {r : Record} {ip : Int}

theorem bounds (h : Tiles start records code) (hr : r ∈ records) :
    start ≤ r.ip ∧ r.ip + r.bytes.length ≤ start + code.length := by
  induction h
  case nil => contradiction
  case cons hip _ _ hi =>
    rw [List.length_append]
    cases List.mem_cons.mp hr
    case inl he =>
      subst he
      omega
    case inr hm =>
      have := hi hm
      omega

theorem pairwise_ip (h : Tiles start records code) : records.Pairwise fun r r' => r.ip < r'.ip := by
  induction h
  case nil => exact .nil
  case cons hip hn ht hi =>
    refine .cons (fun r' hr' => ?_) hi
    have := (ht.bounds hr').left
    have := List.length_pos_iff.mpr hn
    omega

theorem filter_covers_of_outside (h : Tiles start records code)
    (ho : ip < start ∨ start + code.length ≤ ip) : records.filter (Covers · ip) = [] := by
  refine List.filter_eq_nil_iff.mpr fun r hr hc => ?_
  have ⟨h₁, h₂⟩ := of_decide_eq_true hc
  have := h.bounds hr
  omega

-- The search goes past the records that end before the offset, and none behind the one it stops at
-- reaches back.
theorem exists_filter_covers (h : Tiles start records code) (h₁ : start ≤ ip)
    (h₂ : ip < start + code.length) : ∃ r, records.filter (Covers · ip) = [r] ∧
      r.bytes[(ip - r.ip).toNat]? = code[(ip - start).toNat]? := by
  induction h
  case nil =>
    rw [List.length_nil] at h₂
    omega
  case cons start r records code hip _ ht hi =>
    by_cases hlt : ip < start + r.bytes.length
    case pos =>
      have hc : r.Covers ip := ⟨hip ▸ h₁, hip ▸ hlt⟩
      have hrest : records.filter (Covers · ip) = [] :=
        ht.filter_covers_of_outside (.inl (by omega))
      refine ⟨r, by simp [hc, hrest], ?_⟩
      rw [hip, List.getElem?_append_left (by omega)]
    case neg =>
      have hc : ¬r.Covers ip := fun hc => hlt (hip ▸ hc.right)
      rw [List.length_append] at h₂
      have ⟨r', hf, hb⟩ := hi (by omega) (by omega)
      refine ⟨r', by simp [hc, hf], ?_⟩
      rw [hb, List.getElem?_append_right (by omega)]
      congr 1
      omega

theorem covers_ip (h : Tiles start records code) (hr : r ∈ records) : r.Covers r.ip := by
  induction h
  case nil => contradiction
  case cons hn _ hi =>
    cases List.mem_cons.mp hr
    case inl he =>
      have := List.length_pos_iff.mpr hn
      exact he ▸ ⟨Int.le_refl _, by omega⟩
    case inr hm => exact hi hm

theorem filter_covers_of_mem (h : Tiles start records code) (hr : r ∈ records)
    (hc : r.Covers ip) : records.filter (Covers · ip) = [r] := by
  have ⟨hb₁, hb₂⟩ := h.bounds hr
  have ⟨hc₁, hc₂⟩ := hc
  have hle : start ≤ ip := by omega
  have ⟨r', hf, _⟩ := h.exists_filter_covers hle (by omega)
  have hm : r ∈ records.filter (Covers · ip) := List.mem_filter.mpr ⟨hr, decide_eq_true hc⟩
  rw [hf, List.mem_singleton] at hm
  rw [hf, hm]

end Record.Tiles

theorem Record.line_lt_of_ip_lt {records : List Record} {r r' : Record}
    (hip : records.Pairwise fun r r' => r.ip < r'.ip)
    (hl : records.Pairwise fun r r' => r.line < r'.line) (hr : r ∈ records) (hr' : r' ∈ records)
    (h : r.ip < r'.ip) : r.line < r'.line := by
  have ⟨i, hi, he⟩ := List.getElem_of_mem hr
  have ⟨j, hj, he'⟩ := List.getElem_of_mem hr'
  subst he he'
  rcases Nat.lt_trichotomy i j with hlt | heq | hgt
  case inl => exact List.pairwise_iff_getElem.mp hl i j hi hj hlt
  case inr.inl =>
    subst heq
    omega
  case inr.inr =>
    have := List.pairwise_iff_getElem.mp hip j i hj hi hgt
    omega

namespace Program

variable {p : Program} {ip n i : Int} {r : Record}

theorem mem_instructions : r ∈ p.instructions ↔ r ∈ p.records ∧ ¬r.data := by
  simp [instructions]

-- Bytes at the offset `ip` in code that is shorter than offsets can count.
theorem debug?_eq (ht : Record.Tiles 0 p.records p.code)
    (hs : p.code.length < 0x8000000000000000) (ip : Int) :
    p.debug? ip = (p.covering ip).head?.map fun r => (r, ip - r.ip) := by
  have hc : p.covering ip = p.records.filter fun r => r.ip ≤ ip ∧ ip < r.stop := by
    refine List.filter_congr fun r hr => ?_
    have ⟨h₁, h₂⟩ := ht.bounds hr
    rw [Record.stop_eq (by omega) (by omega)]
    rfl
  rw [hc, List.head?_filter]
  rfl

theorem debug?_eq_some_iff (ht : Record.Tiles 0 p.records p.code)
    (hs : p.code.length < 0x8000000000000000) :
    p.debug? ip = some (r, i) ↔ p.covering ip = [r] ∧ i = ip - r.ip := by
  rw [debug?_eq ht hs]
  by_cases hin : 0 ≤ ip ∧ ip < p.code.length
  case pos =>
    have ⟨r', hf, _⟩ := ht.exists_filter_covers hin.left (by omega)
    rw [covering, hf]
    simp only [List.head?_cons, Option.map_some, Option.some.injEq, Prod.mk.injEq,
      List.cons.injEq, and_true]
    refine and_congr_right fun hr => ?_
    rw [hr, eq_comm]
  case neg =>
    rw [covering, ht.filter_covers_of_outside (by omega)]
    simp

theorem of_covering_eq (h : p.covering ip = [r]) : r ∈ p.records ∧ r.Covers ip := by
  have hm : r ∈ p.covering ip := h ▸ List.mem_singleton_self r
  have ⟨hr, hc⟩ := List.mem_filter.mp hm
  exact ⟨hr, of_decide_eq_true hc⟩

namespace Mapped

theorem find?_eq_some_iff (h : p.Mapped) :
    p.mapping.find? ip = some n ↔ ∃ r ∈ p.instructions, r.ip = ip ∧ r.line = n := by
  rw [Table.find?_eq_some_iff, h]
  simp

theorem keys_eq (h : p.Mapped) : p.mapping.entries.map Prod.fst = p.instructions.map Record.ip := by
  rw [h, List.map_map]
  rfl

end Mapped

theorem viewsAgree (ht : Record.Tiles 0 p.records p.code) (hm : p.Mapped)
    (hl : p.records.Pairwise fun r r' => r.line < r'.line)
    (hs : p.code.length < 0x8000000000000000) : p.ViewsAgree where
  found ip := by
    rw [Option.isSome_iff_exists]
    constructor
    case mp =>
      intro ⟨(r, i), hd⟩
      have ⟨hr, hc₁, hc₂⟩ := of_covering_eq ((debug?_eq_some_iff ht hs).mp hd).left
      have := ht.bounds hr
      omega
    case mpr =>
      intro ⟨h₁, h₂⟩
      have ⟨r, hf, _⟩ := ht.exists_filter_covers h₁ (by omega)
      exact ⟨(r, ip - r.ip), (debug?_eq_some_iff ht hs).mpr ⟨hf, rfl⟩⟩
  covers ip r i hd := ((debug?_eq_some_iff ht hs).mp hd).left
  byte ip r i hd := by
    have ⟨hc, hi⟩ := (debug?_eq_some_iff ht hs).mp hd
    have ⟨hr, hc₁, hc₂⟩ := of_covering_eq hc
    have ⟨hb₁, hb₂⟩ := ht.bounds hr
    have ⟨r', hf, hbyte⟩ := ht.exists_filter_covers (Int.le_trans hb₁ hc₁) (by omega)
    cases hc.symm.trans hf
    have hlt : i.toNat < r.bytes.length := by omega
    refine ⟨by omega, r.bytes[i.toNat], List.getElem?_eq_getElem hlt, ?_⟩
    rw [←hi, List.getElem?_eq_getElem hlt] at hbyte
    simpa using hbyte.symm
  lineOf ip n := by
    rw [lineOf?, hm.find?_eq_some_iff]
    constructor
    case mp =>
      intro ⟨r, hr, hip, hn⟩
      have ⟨hr, hd⟩ := mem_instructions.mp hr
      have hc := ht.filter_covers_of_mem hr (hip ▸ ht.covers_ip hr)
      exact ⟨r, (debug?_eq_some_iff ht hs).mpr ⟨hc, by omega⟩, hd, hn⟩
    case mpr =>
      intro ⟨r, hdebug, hd, hn⟩
      have ⟨hc, hi⟩ := (debug?_eq_some_iff ht hs).mp hdebug
      exact ⟨r, mem_instructions.mpr ⟨(of_covering_eq hc).left, hd⟩, by omega, hn⟩
  starts := hm.keys_eq.symm
  ascending := ht.pairwise_ip.filter _
  lines r hr := hm.find?_eq_some_iff.mpr ⟨r, hr, rfl, rfl⟩
  monotone ip ip' n n' h h' hlt := by
    have ⟨r, hr, hip, hn⟩ := hm.find?_eq_some_iff.mp h
    have ⟨r', hr', hip', hn'⟩ := hm.find?_eq_some_iff.mp h'
    subst hip hip' hn hn'
    exact Record.line_lt_of_ip_lt ht.pairwise_ip hl (mem_instructions.mp hr).left
      (mem_instructions.mp hr').left hlt

end Program

-- The instructions are the lines with a mnemonic that is not the one for data. Each starts where
-- the code of the lines above it ends.
theorem Draft.Run.mem_instructions_iff {asm : Assembler} {d : Draft} {raws : List Text}
    {lines : List Line} (hr : Run asm 0 raws lines {} d) (labels : Table Text Int) (ip n : Int) :
    (∃ r ∈ (Layout.program labels lines).instructions, r.ip = ip ∧ r.line = n) ↔
      ∃ (i : Nat) (line : Line) (c : Command), lines[i]? = some line ∧ line.command = some c ∧
        c.mnemonic.upper ≠ InstructionSet.data ∧ ip = (Layout.slots (lines.take i)).length ∧
        n = i := by
  simp only [Program.mem_instructions, Layout.program_records, Layout.mem_records_iff,
    Line.record?_eq_some_iff, Nat.zero_add]
  constructor
  case mp =>
    rintro ⟨r, ⟨⟨i, line, hl, c, s, hc, hs, he⟩, hd⟩, hip, hn⟩
    have ⟨s', hs', hf⟩ := hr.fits line (List.mem_of_getElem? hl) c hc
    cases hs ▸ hs'
    subst he
    exact ⟨i, line, c, hl, hc, mt hf.isData_iff.mpr hd, hip.symm, hn.symm⟩
  case mpr =>
    rintro ⟨i, line, c, hl, hc, hm, hip, hn⟩
    have ⟨s, hs, hf⟩ := hr.fits line (List.mem_of_getElem? hl) c hc
    exact ⟨_, ⟨⟨i, line, hl, c, s, hc, hs, rfl⟩, mt hf.isData_iff.mp hm⟩, hip.symm, hn.symm⟩

namespace Assembler

-- Offsets and lengths are signed 64-bit words, which bounds the code that there can be.
theorem debugger_views_agree (asm : Assembler) (source : Source) (p : Program)
    (h : asm.assemble source = .ok p) (hs : p.code.length < 0x8000000000000000) :
    p.ViewsAgree ∧
    ∃ (texts : List Text) (lines : List Line),
      Layout.Reading asm p.labels (Source.lines source.text) texts lines ∧
      ∀ ip n, p.mapping.find? ip = some n ↔
        ∃ (i : Nat) (line : Line) (c : Command), lines[i]? = some line ∧ line.command = some c ∧
          c.mnemonic.upper ≠ InstructionSet.data ∧ ip = (Layout.slots (lines.take i)).length ∧
          n = i := by
  have ⟨lines, d, hr, _, _, hp⟩ := assemble_eq_ok_iff.mp h
  have ⟨texts, hread⟩ := hr.reading
  have ht : Record.Tiles 0 p.records p.code := hp ▸ hr.tiles_program d.labels
  have hl : p.records.Pairwise fun r r' => r.line < r'.line := by
    rw [hp, Layout.program_records]
    exact Layout.pairwise_records ..
  have hm : p.Mapped := hp ▸ Layout.mapped_program d.labels lines
  refine ⟨Program.viewsAgree ht hm hl hs, texts, lines, hp ▸ hread, fun ip n => ?_⟩
  rw [hm.find?_eq_some_iff, hp]
  exact hr.mem_instructions_iff ..

-- Bytes of a jump and of data, an operand that is no start of an instruction, and offsets outside.
theorem debugger_views_agree_of_listing :
    let source : Source :=
      { text := Text.ofString "JMP start\nmsg: DB \"AB\"\n\nstart: MOV C, msg\nHLT" }
    ∃ p, assemble {} source = .ok p ∧ p.code.length < 0x8000000000000000 ∧
      [-1, 1, 3, 6, 8].map (fun ip => (p.debug? ip).map fun (r, i) => (r.line, i)) =
        [none, some (0, 1), some (1, 1), some (3, 2), none] ∧
      [0, 1, 2, 4, 7].map p.lineOf? = [some 0, none, none, some 3, some 4] ∧ p.ViewsAgree := by
  intro source
  have h : (assemble {} source).toOption.map (fun p => (p.code,
      [-1, 1, 3, 6, 8].map (fun ip => (p.debug? ip).map fun (r, i) => (r.line, i)),
      [0, 1, 2, 4, 7].map p.lineOf?)) = some ([31, 4, 65, 66, 6, 2, 2, 0],
      [none, some (0, 1), some (1, 1), some (3, 2), none],
      [some 0, none, none, some 3, some 4]) := by
    decide +kernel
  cases ha : assemble {} source
  case error => simp [ha, Except.toOption] at h
  case ok p =>
    simp only [ha, Except.toOption, Option.map_some, Option.some.injEq, Prod.mk.injEq] at h
    obtain ⟨hc, hd, hl⟩ := h
    have hs : p.code.length < 0x8000000000000000 := by simp [hc]
    obtain ⟨hv, _⟩ := debugger_views_agree {} source p ha hs
    exact ⟨p, rfl, hs, hd, hl, hv⟩

end Assembler

end ByteAsm
