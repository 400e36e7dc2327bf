import ByteAsm.Proofs.SideBySide
import ByteAsm.Proofs.VisibleNames

namespace ByteAsm

namespace Table

variable {κ α β : Type} [DecidableEq κ]

-- Binds the keys of all entries that have a value, one after the other.
def overlay (value? : κ → α → Option β) (table : Table κ β) (entries : List (κ × α)) : Table κ β :=
  entries.foldl (fun table entry => (value? entry.1 entry.2).elim table (table.insert entry.1))
    table

variable [BEq κ] [LawfulBEq κ] {table : Table κ β} {value? : κ → α → Option β}
  {entries : List (κ × α)} {key : κ}

theorem find?_overlay_of_skipped
    (h : ∀ entry ∈ entries, entry.1 = key → value? entry.1 entry.2 = none) :
    (table.overlay value? entries).find? key = table.find? key := by
  induction entries generalizing table
  case nil => rfl
  case cons entry entries hi =>
    obtain ⟨he, h⟩ := List.forall_mem_cons.mp h
    rw [overlay, List.foldl_cons]
    refine (hi h).trans ?_
    cases hv : value? entry.1 entry.2
    case none => rfl
    case some value =>
      have hk : key ≠ entry.1 := by
        intro hk
        simp [he hk.symm] at hv
      rw [Option.elim_some, find?_insert, if_neg hk]

-- If no key is repeated, then the place of an entry does not matter.
theorem find?_overlay_of_mem {a : α} {value : β} (hn : (entries.map Prod.fst).Nodup)
    (hm : (key, a) ∈ entries) (hv : value? key a = some value) :
    (table.overlay value? entries).find? key = some value := by
  obtain ⟨before, after, rfl⟩ := List.append_of_mem hm
  rw [List.map_append, List.map_cons, List.nodup_append, List.nodup_cons] at hn
  rw [overlay, List.foldl_append, List.foldl_cons]
  refine (find?_overlay_of_skipped fun entry he hk => ?_).trans ?_
  case refine_1 =>
    have hm := List.mem_map_of_mem (f := Prod.fst) he
    exact absurd (hk ▸ hm) hn.right.left.left
  case refine_2 => rw [hv, Option.elim_some, find?_insert, if_pos rfl]

-- The entries of a table over another one, in any order.
theorem find?_overlay_of_perm {above : Table κ α} (h : entries.Perm above.entries) :
    (table.overlay value? entries).find? key =
      ((above.find? key).bind (value? key)).or (table.find? key) := by
  have hm {a : α} : (key, a) ∈ entries ↔ above.find? key = some a :=
    h.mem_iff.trans find?_eq_some_iff.symm
  cases hv : (above.find? key).bind (value? key)
  case some value =>
    obtain ⟨a, ha, hv⟩ := Option.bind_eq_some_iff.mp hv
    exact find?_overlay_of_mem ((h.map Prod.fst).nodup_iff.mpr above.nodup) (hm.mpr ha) hv
  case none =>
    refine find?_overlay_of_skipped fun entry he hk => ?_
    subst hk
    rwa [hm.mp he] at hv

end Table

namespace Assembler

variable {calls : List (Text × Text)} {name value : Text}

def predefineAll (evaluator : (Text → Option Int) → Text → Option Int)
    (calls : List (Text × Text)) : Assembler :=
  calls.foldl (fun asm (name, value) => asm.predefine name value) { evaluator }

theorem evaluator_predefineAll (evaluator : (Text → Option Int) → Text → Option Int)
    (calls : List (Text × Text)) : (predefineAll evaluator calls).evaluator = evaluator :=
  CommandLine.evaluator_foldl_predefine calls _

-- The value that a name is given last.
def LastValue (calls : List (Text × Text)) (name value : Text) : Prop :=
  ∃ before after, calls = before ++ (name, value) :: after ∧ ∀ call ∈ after, call.1 ≠ name

theorem exists_lastValue (h : name ∈ calls.map Prod.fst) : ∃ value, LastValue calls name value := by
  induction calls
  case nil => exact absurd h List.not_mem_nil
  case cons call calls hi =>
    by_cases hm : name ∈ calls.map Prod.fst
    case pos =>
      obtain ⟨value, before, after, he, ha⟩ := hi hm
      exact ⟨value, call :: before, after, he ▸ rfl, ha⟩
    case neg =>
      have hn : name = call.1 := (List.mem_cons.mp h).resolve_right hm
      refine ⟨call.2, [], calls, hn ▸ rfl, fun call' hc he => hm ?_⟩
      exact he ▸ List.mem_map_of_mem hc

theorem find?_predefineAll (evaluator : (Text → Option Int) → Text → Option Int)
    (h : LastValue calls name value) :
    (predefineAll evaluator calls).predefines.find? name = some value := by
  obtain ⟨before, after, rfl, ha⟩ := h
  rw [predefineAll, List.foldl_append, List.foldl_cons, CommandLine.find?_foldl_predefine ha]
  simp [predefine, Table.find?_insert]

-- Each constant has the value that it is given last.
def Reflects (asm : Assembler) (calls : List (Text × Text)) : Prop :=
  ∀ name value, asm.predefines.find? name = some value ↔ LastValue calls name value

theorem reflects_predefineAll (evaluator : (Text → Option Int) → Text → Option Int)
    (calls : List (Text × Text)) : (predefineAll evaluator calls).Reflects calls := by
  refine fun name value => ⟨fun h => ?_, find?_predefineAll evaluator⟩
  by_cases hm : name ∈ calls.map Prod.fst
  case pos =>
    obtain ⟨value', hl⟩ := exists_lastValue hm
    cases h.symm.trans (find?_predefineAll evaluator hl)
    exact hl
  case neg =>
    have hn : ∀ call ∈ calls, call.1 ≠ name := fun call hc he => hm (he ▸ List.mem_map_of_mem hc)
    rw [predefineAll, CommandLine.find?_foldl_predefine hn] at h
    contradiction

-- Assembling asks for the values of constants and of expressions only.
theorem assemble_congr {asm asm' : Assembler} (he : asm.evaluator = asm'.evaluator)
    (hr : asm.Reflects calls) (hr' : asm'.Reflects calls) (source : Source) :
    asm.assemble source = asm'.assemble source := by
  have h (name : Text) : asm.constant? name = asm'.constant? name := by
    have hf : asm.predefines.find? name = asm'.predefines.find? name :=
      Option.ext fun value => (hr name value).trans (hr' name value).symm
    rw [constant?, constant?, hf]
  have hs (d : Draft) (n : Nat) : d.value? asm n = d.value? asm' n := by
    have hs : d.scope asm n = d.scope asm' n := by
      funext name
      rw [Draft.scope, Draft.scope, h]
    rw [Draft.value?, Draft.value?, hs, he]
  have hl (n : Nat) (raws : List Text) (d : Draft) :
      Draft.addLines asm n raws d = Draft.addLines asm' n raws d := by
    induction raws generalizing n d
    case nil => rfl
    case cons raw raws hi =>
      rw [Draft.addLines_cons, Draft.addLines_cons, Draft.addRaw, Draft.addRaw, Draft.addLine,
        Draft.addLine, hs]
      congr 1
      funext d
      exact hi ..
  rw [assemble, assemble, hl]

end Assembler

namespace Draft

open Assembler (LastValue predefineAll)
open Expression (Predeclares result)
open Expression.Token (IsName)

variable {asm : Assembler} {calls constants : List (Text × Text)} {labels : List (Text × Int)}
  {raws : List Text} {lines : List Line} {d : Draft} {name : Text} {v : Option Int}

-- The names for expressions on line `n`. Values that are no numbers are passed over, and so are
-- labels that start with a dot.
def environment (n : Nat) (constants : List (Text × Text)) (labels : List (Text × Int)) :
    Table Text Int :=
  (∅ : Table Text Int).insert (Text.ofString "LINENO") n
    |>.overlay (fun _ value => (Word.number value).toOption) constants
    |>.overlay (fun name offset => if name.head? = some '.'.toUInt8 then none else some offset)
      labels

theorem find?_environment (hc : constants.Perm asm.predefines.entries)
    (hl : labels.Perm d.labels.entries) (n : Nat) (name : Text) :
    (environment n constants labels).find? name = d.scope asm n name := by
  rw [environment, Table.find?_overlay_of_perm hl, Table.find?_overlay_of_perm hc,
    Table.find?_insert, scope, Assembler.constant?, Option.or_assoc]
  congr 1
  split <;> simp

-- A label above that an expression can name.
def LabelAbove (lines : List Line) (name : Text) : Prop :=
  name.head? ≠ some '.'.toUInt8 ∧ ∃ line ∈ lines, line.label = some name

def HasNumber (calls : List (Text × Text)) (name : Text) : Prop :=
  ∃ value n, LastValue calls name value ∧ Word.number value = .ok n

-- What a name means on the line below `lines`, if it means anything.
inductive Denotes (calls : List (Text × Text)) (lines : List Line) (name : Text) :
    Option Int → Prop
  | label {i : Nat} {line : Line} : name.head? ≠ some '.'.toUInt8 → lines[i]? = some line →
    line.label = some name → Denotes calls lines name (some (Layout.slots (lines.take i)).length)
  | constant {value : Text} {n : Int} : ¬LabelAbove lines name → LastValue calls name value →
    Word.number value = .ok n → Denotes calls lines name (some n)
  | lineNumber : ¬LabelAbove lines name → ¬HasNumber calls name →
    name = Text.ofString "LINENO" → Denotes calls lines name (some lines.length)
  | nothing : ¬LabelAbove lines name → ¬HasNumber calls name →
    name ≠ Text.ofString "LINENO" → Denotes calls lines name none

theorem Denotes.exists (calls : List (Text × Text)) (lines : List Line) (name : Text) :
    ∃ v, Denotes calls lines name v := by
  by_cases hl : LabelAbove lines name
  case pos =>
    obtain ⟨hd, line, hm, hl⟩ := hl
    obtain ⟨i, hi⟩ := List.mem_iff_getElem?.mp hm
    exact ⟨_, .label hd hi hl⟩
  case neg =>
    by_cases hc : HasNumber calls name
    case pos =>
      obtain ⟨value, n, hv, hn⟩ := hc
      exact ⟨_, .constant hl hv hn⟩
    case neg =>
      by_cases hn : name = Text.ofString "LINENO"
      case pos => exact ⟨_, .lineNumber hl hc hn⟩
      case neg => exact ⟨_, .nothing hl hc hn⟩

theorem visible_of_not_labelAbove (r : Run asm 0 raws lines {} d) (h : ¬LabelAbove lines name) :
    (if name.head? = some '.'.toUInt8 then none else d.labels.find? name) = none := by
  split
  case isTrue => rfl
  case isFalse hd => exact r.find?_of_no_label fun line hm hl => h ⟨hd, line, hm, hl⟩

theorem constant?_of_not_hasNumber (hc : asm.Reflects calls) (h : ¬HasNumber calls name) :
    asm.constant? name = none := by
  refine Option.bind_eq_none_iff.mpr fun value hv => ?_
  cases hn : Word.number value
  case error => rfl
  case ok n => exact absurd ⟨value, n, (hc name value).mp hv, hn⟩ h

theorem Denotes.scope_eq (r : Run asm 0 raws lines {} d) (hc : asm.Reflects calls)
    (h : Denotes calls lines name v) : d.scope asm lines.length name = v := by
  cases h
  case label i line hd hi hl =>
    simp [scope, hd, r.find?_of_label hi hl]
  case constant value n hl hv hn =>
    have hf : asm.constant? name = some n := by
      rw [Assembler.constant?, (hc name value).mpr hv, Option.bind_some, hn]
      rfl
    rw [scope, visible_of_not_labelAbove r hl, hf]
    rfl
  case lineNumber hl hn he =>
    rw [scope, visible_of_not_labelAbove r hl, constant?_of_not_hasNumber hc hn, if_pos he]
    rfl
  case nothing hl hn he =>
    rw [scope, visible_of_not_labelAbove r hl, constant?_of_not_hasNumber hc hn, if_neg he]
    rfl

theorem scope_eq_iff_denotes (r : Run asm 0 raws lines {} d) (hc : asm.Reflects calls) :
    d.scope asm lines.length name = v ↔ Denotes calls lines name v := by
  refine ⟨fun h => ?_, Denotes.scope_eq r hc⟩
  obtain ⟨v', hd⟩ := Denotes.exists calls lines name
  exact h ▸ hd.scope_eq r hc ▸ hd

theorem addLine_eq_bind (asm : Assembler) (n : Nat) (text : Text) (d : Draft) :
    addLine asm n text d =
      Expansion.expand (d.value? asm n) text >>= Line.read >>= d.add n := by
  rw [addLine_eq, Line.readIn]
  simp only [bind, Except.bind]
  cases Expansion.expand (d.value? asm n) text
  case error => rfl
  case ok expanded =>
    dsimp only
    cases Line.read expanded <;> rfl

-- The name of the result counts as not assigned yet, whatever it means otherwise.
theorem scoping_order_free (evaluator : (Text → Option Int) → Text → Option Int)
    (calls calls' : List (Text × Text))
    (h : ∀ name value, LastValue calls name value ↔ LastValue calls' name value) :
    (∀ source, (predefineAll evaluator calls).assemble source =
      (predefineAll evaluator calls').assemble source) ∧
    ∀ asm, asm = predefineAll evaluator calls ∨ asm = predefineAll evaluator calls' →
      ∀ raws lines d, Run asm 0 raws lines {} d →
      ∀ constants labels, constants.Perm asm.predefines.entries →
        labels.Perm d.labels.entries →
        let names := (environment raws.length constants labels).find?
        (∀ text, addLine asm raws.length text d =
          Expansion.expand (evaluator names) text >>= Line.read >>= d.add raws.length) ∧
        (∀ name v, names name = v ↔ Denotes calls lines name v) ∧
        (Predeclares evaluator → evaluator names result = none ∧
          ∀ name v, IsName name → name ≠ result → Denotes calls lines name (some v) →
            evaluator names name = some v) := by
  have hr := Assembler.reflects_predefineAll evaluator calls
  have hr' : (predefineAll evaluator calls').Reflects calls := fun name value =>
    (Assembler.reflects_predefineAll evaluator calls' name value).trans (h name value).symm
  have he := Assembler.evaluator_predefineAll evaluator calls
  have he' := Assembler.evaluator_predefineAll evaluator calls'
  refine ⟨Assembler.assemble_congr (he.trans he'.symm) hr hr', ?_⟩
  intro asm ha raws lines d r constants labels hc hl names
  have ⟨hasm, heval⟩ : asm.Reflects calls ∧ asm.evaluator = evaluator := by
    cases ha
    case inl ha => exact ha ▸ ⟨hr, he⟩
    case inr ha => exact ha ▸ ⟨hr', he'⟩
  have hn : names = d.scope asm raws.length := funext (find?_environment hc hl _)
  have hdenotes (name : Text) (v : Option Int) : names name = v ↔ Denotes calls lines name v := by
    rw [hn, ←r.length_eq, scope_eq_iff_denotes r hasm]
  refine ⟨fun text => ?_, hdenotes, fun hp => ⟨hp.assigned names, fun name v hname hne hd => ?_⟩⟩
  case refine_1 => rw [addLine_eq_bind, value?, hn, heval]
  case refine_2 => exact hp.declared hname hne ((hdenotes name _).mpr hd)

-- A constant that a label hides, one whose last value is no number, and one with the name of the
-- line number. The second list defines them in another order and only once.
theorem scoping_order_free_of_redefinition :
    let n := Text.ofString "N"
    let m := Text.ofString "M"
    let lineno := Text.ofString "LINENO"
    let calls := [(n, Text.ofString "1"), (m, Text.ofString "2"), (m, Text.ofString "two"),
      (lineno, Text.ofString "0x10")]
    let calls' := [(lineno, Text.ofString "0x10"), (m, Text.ofString "two"), (n, Text.ofString "1")]
    let asm := predefineAll Expression.value? calls'
    let raws := [Text.ofString "HLT", Text.ofString "N: HLT"]
    (∀ name value, LastValue calls name value ↔ LastValue calls' name value) ∧
      (predefineAll Expression.value? calls).assemble { text := Text.ofString "DB $(LINENO)" } =
        asm.assemble { text := Text.ofString "DB $(LINENO)" } ∧
      ∃ lines d, Run asm 0 raws lines {} d ∧
        let names := (environment 2 asm.predefines.entries.reverse d.labels.entries).find?
        names n = some 1 ∧ names m = none ∧ names lineno = some 16 ∧
          Expression.value? names lineno = some 16 := by
  intro n m lineno calls calls' asm raws
  have hlast (name value : Text) : LastValue calls name value ↔ LastValue calls' name value := by
    rw [←Assembler.reflects_predefineAll Expression.value?,
      ←Assembler.reflects_predefineAll Expression.value?]
    simp only [calls, calls', predefineAll, List.foldl_cons, List.foldl_nil, Assembler.predefine,
      Table.find?_insert]
    have hnm : n ≠ m := by decide
    have hnl : n ≠ lineno := by decide
    have hml : m ≠ lineno := by decide
    grind
  let halt (label : Option Text) : Line := ⟨label, some ⟨Text.ofString "HLT", []⟩⟩
  let lines := [halt none, halt (some n)]
  obtain ⟨d, r⟩ : ∃ d, Run asm 0 raws lines {} d := by
    refine Run.exists_of_read (by rfl) (by decide) ?_ (by decide) (by decide)
    simp only [lines, List.forall_mem_cons]
    refine ⟨?_, ?_, List.forall_mem_nil _⟩
    all_goals
      intro c hc
      cases hc
      exact ⟨_, rfl⟩
  obtain ⟨hsame, hscope⟩ := scoping_order_free Expression.value? calls calls' hlast
  obtain ⟨-, hnames, hvalues⟩ := hscope asm (.inr rfl) raws lines d r asm.predefines.entries.reverse
    d.labels.entries (List.reverse_perm _) (.refl _)
  have hn := (hnames n _).mpr (.label (i := 1) (by decide) rfl rfl)
  have hm : Denotes calls lines m none := by
    refine .nothing ?_ ?_ (by decide)
    case refine_1 =>
      rintro ⟨_, line, hm, hl⟩
      revert line
      decide
    case refine_2 =>
      rintro ⟨value, k, hv, hk⟩
      have hf := Assembler.find?_predefineAll Expression.value? hv
      cases hf
      contradiction
  have hl : Denotes calls lines lineno (some 16) := by
    have hv : LastValue calls lineno (Text.ofString "0x10") :=
      ⟨calls.take 3, [], rfl, List.forall_mem_nil _⟩
    refine .constant ?_ hv (by rfl)
    rintro ⟨_, line, hm, hl⟩
    revert line
    decide
  have hname : IsName lineno := ⟨by decide, by decide, by decide, by decide⟩
  obtain ⟨-, hvalue⟩ := hvalues Expression.predeclares_value?
  exact ⟨hlast, hsame _, lines, d, r, hn, (hnames m _).mpr hm, (hnames lineno _).mpr hl,
    hvalue lineno 16 hname (by decide) hl⟩

-- The constant `rc` is a number, but the program around the expression assigns the same name.
theorem assemble_predefined_result :
    let calls := [(result, Text.ofString "5")]
    IsName result ∧ Denotes calls [] result (some 5) ∧
      (predefineAll Expression.value? calls).assemble { text := Text.ofString "DB $(rc)\n" } =
        .error (.onLine 0 (Source.evaluating result) (.badExpression result)) := by
  intro calls
  have hname : IsName result := ⟨by decide, by decide, by decide, by decide⟩
  have hv : LastValue calls result (Text.ofString "5") := ⟨[], [], rfl, List.forall_mem_nil _⟩
  have hl : ¬LabelAbove [] result := by
    rintro ⟨-, line, hm, -⟩
    exact List.not_mem_nil hm
  exact ⟨hname, .constant hl hv (by rfl), by decide +kernel⟩

end Draft

end ByteAsm
