import Mathlib.Data.List.Forall2
import Mathlib.Data.List.Nodup
import Mathlib.Data.List.Pairwise
import MetaBlocks.Yaml.Decode

/-!
Records read from mappings. What a mapping says of a record is put in terms of which names its keys
give to which values, so the order of the keys does not enter. A record can be read exactly if every
key is known, none comes twice and every value fits; it then is the default with the given values
in place.
-/

set_option autoImplicit false
set_option relaxedAutoImplicit false

namespace MetaBlocks.Yaml

theorem bind_eq_ok_iff {ε α β : Type} {x : Except ε α} {f : α → Except ε β} {b : β} :
    x >>= f = .ok b ↔ ∃ a, x = .ok a ∧ f a = .ok b := by
  cases x with
  | error e => simp [bind, Except.bind]
  | ok a => simp [bind, Except.bind]

private theorem mapError_eq_ok_iff {ε ε' α : Type} {x : Except ε α} {f : ε → ε'} {a : α} :
    x.mapError f = .ok a ↔ x = .ok a := by
  cases x <;> simp [Except.mapError]

theorem find?_name_eq_some_iff {α : Type} {name : α → String} {xs : List α}
    (hnodup : (xs.map name).Nodup) {s : List Char} {x : α} :
    xs.find? (fun x => (name x).toList = s) = some x ↔ x ∈ xs ∧ (name x).toList = s := by
  constructor
  · intro h
    exact ⟨List.mem_of_find?_eq_some h, by simpa using List.find?_some h⟩
  · rintro ⟨hx, rfl⟩
    cases hfind : xs.find? fun y => (name y).toList = (name x).toList with
    | none =>
      rw [List.find?_eq_none] at hfind
      exact absurd (by rw [decide_eq_true_eq]) (hfind x hx)
    | some y =>
      have hsame : (name y).toList = (name x).toList := by simpa using List.find?_some hfind
      rw [List.inj_on_of_nodup_map hnodup (List.mem_of_find?_eq_some hfind) hx
        (String.toList_inj.mp hsame)]

namespace Document

variable {d : Document} {es : List (Node × Node)}

/-- The node is a scalar with this text, or an alias for one. -/
def Says (d : Document) (n : Node) (s : List Char) : Prop :=
  ∃ m tag style, d.resolve n = .scalar m tag style s

private theorem Says.unique {n : Node} {s t : List Char} (hs : d.Says n s) (ht : d.Says n t) :
    s = t := by
  obtain ⟨m, tag, style, hs⟩ := hs
  obtain ⟨m', tag', style', ht⟩ := ht
  rw [hs] at ht
  exact (Node.scalar.inj ht).2.2.2

@[simp] theorem says_scalar_iff {m : Mark} {tag : Option (List Char)} {style : ScalarStyle}
    {s t : List Char} : d.Says (.scalar m tag style t) s ↔ t = s := by
  simp [Says, resolve]

def Gives (d : Document) (es : List (Node × Node)) (name : String) (v : Node) : Prop :=
  ∃ key, (key, v) ∈ es ∧ d.Says key name.toList

@[simp] theorem not_gives_nil (name : String) (v : Node) : ¬d.Gives [] name v := by
  rintro ⟨key, hmem, -⟩
  cases hmem

@[simp] theorem gives_cons_iff {key value v : Node} {name : String} :
    d.Gives ((key, value) :: es) name v ↔
      d.Says key name.toList ∧ v = value ∨ d.Gives es name v := by
  constructor
  · rintro ⟨key', hmem, hsaid⟩
    rcases List.mem_cons.mp hmem with heq | hmem
    · obtain ⟨rfl, rfl⟩ := Prod.mk.inj heq
      exact .inl ⟨hsaid, rfl⟩
    · exact .inr ⟨key', hmem, hsaid⟩
  · rintro (⟨hsaid, rfl⟩ | ⟨key', hmem, hsaid⟩)
    · exact ⟨key, List.mem_cons_self, hsaid⟩
    · exact ⟨key', List.mem_cons_of_mem _ hmem, hsaid⟩

/-- Every key is one of the names, and no two keys are the same. -/
structure WellKeyed (d : Document) (names : List String) (es : List (Node × Node)) : Prop where
  known : ∀ e ∈ es, ∃ name ∈ names, d.Says e.1 name.toList
  distinct : es.Pairwise fun a b => ∀ s, d.Says a.1 s → ¬d.Says b.1 s

@[simp] theorem wellKeyed_nil (names : List String) : d.WellKeyed names [] :=
  ⟨fun _ he => (List.not_mem_nil he).elim, List.Pairwise.nil⟩

@[simp] theorem wellKeyed_cons_iff {names : List String} {key value : Node} :
    d.WellKeyed names ((key, value) :: es) ↔
      (∃ name ∈ names, d.Says key name.toList ∧ ∀ v, ¬d.Gives es name v) ∧
        d.WellKeyed names es := by
  constructor
  · rintro ⟨hknown, hdistinct⟩
    obtain ⟨hhead, htail⟩ := List.pairwise_cons.mp hdistinct
    obtain ⟨name, hname, hsaid⟩ := hknown (key, value) List.mem_cons_self
    refine ⟨⟨name, hname, hsaid, ?_⟩, fun e he => hknown e (List.mem_cons_of_mem _ he), htail⟩
    rintro v ⟨key', hmem, hsaid'⟩
    exact hhead (key', v) hmem name.toList hsaid hsaid'
  · rintro ⟨⟨name, hname, hsaid, hnone⟩, hknown, hdistinct⟩
    constructor
    · intro e he
      rcases List.mem_cons.mp he with rfl | he
      · exact ⟨name, hname, hsaid⟩
      · exact hknown e he
    · refine List.pairwise_cons.mpr ⟨?_, hdistinct⟩
      intro e he s hs hs'
      obtain rfl := hs.unique hsaid
      exact hnone e.2 ⟨e.1, he, hs'⟩

theorem WellKeyed.gives_unique {names : List String} (h : d.WellKeyed names es) {name : String}
    {v w : Node} (hv : d.Gives es name v) (hw : d.Gives es name w) : v = w := by
  obtain ⟨key, hmem, hsaid⟩ := hv
  obtain ⟨key', hmem', hsaid'⟩ := hw
  by_contra hne
  have : Std.Symm fun a b : Node × Node => ∀ s, d.Says a.1 s → ¬d.Says b.1 s :=
    ⟨fun a b hab s hb ha => hab s ha hb⟩
  have hpair : (key, v) ≠ (key', w) := fun heq => hne (Prod.mk.inj heq).2
  exact h.distinct.forall hmem hmem' hpair name.toList hsaid hsaid'

/-- The entries of a mapping; a value that is not written has none. -/
def fields? (d : Document) (n : Node) : Option (List (Node × Node)) :=
  match d.resolve n with
  | .mapping _ _ es => some es
  | .scalar _ _ .plain [] => some []
  | _ => none

private theorem fields?_eq_some_iff {n : Node} : d.fields? n = some es ↔
    (∃ m tag, d.resolve n = .mapping m tag es) ∨
      (∃ m tag, d.resolve n = .scalar m tag .plain []) ∧ es = [] := by
  unfold fields?
  constructor
  · intro h
    split at h
    · next m tag es' hn =>
      cases h
      exact .inl ⟨m, tag, hn⟩
    · next m tag hn =>
      cases h
      exact .inr ⟨⟨m, tag, hn⟩, rfl⟩
    · cases h
  · rintro (⟨m, tag, hn⟩ | ⟨⟨m, tag, hn⟩, rfl⟩)
    · rw [hn]
    · rw [hn]

end Document

/-- A part of a record: which nodes are fit for it, and what they say it is. -/
structure Column (σ : Type) where
  name : String
  Value : Type
  get : σ → Value
  Fits : Document → Node → Prop
  Reads : Document → Node → Value → Prop

namespace Column

variable {σ τ : Type}

def leaf {α : Type} (name : String) (get : σ → α) (Reads : Document → Node → α → Prop) : Column σ :=
  ⟨name, α, get, fun d v => ∃ x, Reads d v x, Reads⟩

/-- The part has the value that a mapping gives it, or else the value it has in the default. -/
def Overlaid (c : Column σ) (d : Document) (es : List (Node × Node)) (default s : σ) : Prop :=
  (∃ v, d.Gives es c.name v ∧ c.Reads d v (c.get s)) ∨
    (∀ v, ¬d.Gives es c.name v) ∧ c.get s = c.get default

def group (name : String) (get : σ → τ) (columns : List (Column τ)) (default : τ) : Column σ where
  name := name
  Value := τ
  get := get
  Fits d v := ∃ es, d.fields? v = some es ∧ d.WellKeyed (columns.map (·.name)) es ∧
    ∀ c ∈ columns, ∀ w, d.Gives es c.name w → c.Fits d w
  Reads d v x := ∃ es, d.fields? v = some es ∧ d.WellKeyed (columns.map (·.name)) es ∧
    ∀ c ∈ columns, c.Overlaid d es default x

def Definite (c : Column σ) : Prop := ∀ d v x y, c.Reads d v x → c.Reads d v y → x = y

theorem definite_leaf {α : Type} {name : String} {get : σ → α}
    {Reads : Document → Node → α → Prop} (read : Decoder α)
    (hread : ∀ {d path v x}, read d path v = .ok x ↔ Reads d v x) :
    (leaf name get Reads).Definite := by
  intro d v x y hx hy
  have hx : read d [] v = .ok x := hread.mpr hx
  have hy : read d [] v = .ok y := hread.mpr hy
  rw [hx] at hy
  exact Except.ok.inj hy

/-- The columns leave nothing of the record open. -/
structure Complete (columns : List (Column σ)) : Prop where
  definite : ∀ c ∈ columns, c.Definite
  all : ∀ s t : σ, (∀ c ∈ columns, c.get s = c.get t) → s = t

theorem Complete.overlaid_unique {columns : List (Column σ)} (h : Complete columns) {d : Document}
    {es : List (Node × Node)} {names : List String} {default s t : σ}
    (hkeyed : d.WellKeyed names es) (hs : ∀ c ∈ columns, c.Overlaid d es default s)
    (ht : ∀ c ∈ columns, c.Overlaid d es default t) : s = t := by
  refine h.all s t fun c hc => ?_
  rcases hs c hc with ⟨v, hv, hreads⟩ | ⟨hnone, hget⟩
  · rcases ht c hc with ⟨w, hw, hreads'⟩ | ⟨hnone, -⟩
    · obtain rfl := hkeyed.gives_unique hv hw
      exact h.definite c hc d v _ _ hreads hreads'
    · exact absurd hv (hnone v)
  · rcases ht c hc with ⟨w, hw, -⟩ | ⟨-, hget'⟩
    · exact absurd hw (hnone w)
    · exact hget.trans hget'.symm

theorem Complete.definite_group {columns : List (Column τ)} (h : Complete columns) {name : String}
    {get : σ → τ} {default : τ} : (group name get columns default).Definite := by
  rintro d v x y ⟨es, hes, hkeyed, hx⟩ ⟨es', hes', -, hy⟩
  obtain rfl : es = es' := Option.some.inj (hes.symm.trans hes')
  exact h.overlaid_unique hkeyed hx hy

end Column

namespace Decode

variable {σ : Type} {fields : List (RecordField σ)} {columns : List (Column σ)} {d : Document}
  {path : Path}

/-- A field reads what its column says, and changes no other column. -/
structure Serves (columns : List (Column σ)) (f : RecordField σ) (c : Column σ) : Prop where
  name_eq : f.name = c.name
  fits_iff : ∀ d path v, (∃ put, f.read d path v = .ok put) ↔ c.Fits d v
  reads : ∀ {d path v put}, f.read d path v = .ok put → ∀ s, c.Reads d v (c.get (put s))
  frame : ∀ {d path v put}, f.read d path v = .ok put →
    ∀ c' ∈ columns, c'.name ≠ c.name → ∀ s, c'.get (put s) = c'.get s

structure Table (fields : List (RecordField σ)) (columns : List (Column σ)) : Prop where
  serves : List.Forall₂ (Serves columns) fields columns
  nodup : (columns.map (·.name)).Nodup

namespace Table

private theorem exists_column (T : Table fields columns) {f : RecordField σ} (hf : f ∈ fields) :
    ∃ c ∈ columns, Serves columns f c := by
  obtain ⟨i, hi, rfl⟩ := List.mem_iff_getElem.mp hf
  have hi' : i < columns.length := T.serves.length_eq ▸ hi
  exact ⟨columns[i], List.getElem_mem hi', T.serves.get hi hi'⟩

private theorem exists_field (T : Table fields columns) {c : Column σ} (hc : c ∈ columns) :
    ∃ f ∈ fields, Serves columns f c := by
  obtain ⟨i, hi, rfl⟩ := List.mem_iff_getElem.mp hc
  have hi' : i < fields.length := T.serves.length_eq ▸ hi
  exact ⟨fields[i], List.getElem_mem hi', T.serves.get hi' hi⟩

private theorem eq_of_name_eq (T : Table fields columns) {c c' : Column σ} (hc : c ∈ columns)
    (hc' : c' ∈ columns) (h : c'.name = c.name) : c' = c :=
  List.inj_on_of_nodup_map T.nodup hc' hc h

private theorem nodup_fields (T : Table fields columns) : (fields.map (·.name)).Nodup := by
  have hnames : List.Forall₂ (fun f c => f.name = c.name) fields columns :=
    T.serves.imp fun _ _ h => h.name_eq
  have hsame : fields.map (·.name) = columns.map (·.name) := by
    rw [← List.forall₂_eq_eq_eq, List.forall₂_map_left_iff, List.forall₂_map_right_iff]
    exact hnames
  rw [hsame]
  exact T.nodup

private theorem fieldOf_ok_iff (T : Table fields columns) {key : Node} {f : RecordField σ} :
    fieldOf fields d path key = .ok f ↔ f ∈ fields ∧ d.Says key f.name.toList := by
  unfold fieldOf
  constructor
  · intro h
    split at h
    · next m tag style name hkey =>
      split at h
      · next f' hfind =>
        cases h
        obtain ⟨hf, rfl⟩ := (find?_name_eq_some_iff T.nodup_fields).mp hfind
        exact ⟨hf, m, tag, style, hkey⟩
      · cases h
    · cases h
  · rintro ⟨hf, m, tag, style, hkey⟩
    simp only [hkey, (find?_name_eq_some_iff T.nodup_fields).mpr ⟨hf, rfl⟩]

end Table

private theorem entries_cons_ok_iff {seen : List String} {s t : σ} {key value : Node}
    {es : List (Node × Node)} :
    entries fields d path seen s ((key, value) :: es) = .ok t ↔
      ∃ f put, fieldOf fields d path key = .ok f ∧ f.name ∉ seen ∧
        f.read d (stepTo key :: path) value = .ok put ∧
        entries fields d path (f.name :: seen) (put s) es = .ok t := by
  rw [entries, bind_eq_ok_iff]
  constructor
  · rintro ⟨f, hfield, h⟩
    split at h
    · cases h
    · next hnew =>
      obtain ⟨put, hput, h⟩ := bind_eq_ok_iff.mp h
      exact ⟨f, put, hfield, fun hmem => hnew (List.contains_iff_mem.mpr hmem), hput, h⟩
  · rintro ⟨f, put, hfield, hnew, hput, h⟩
    refine ⟨f, hfield, ?_⟩
    rw [if_neg fun hmem => hnew (List.contains_iff_mem.mp hmem)]
    exact bind_eq_ok_iff.mpr ⟨put, hput, h⟩

private theorem of_entries_ok (T : Table fields columns) {seen : List String} {s t : σ}
    {es : List (Node × Node)} (h : entries fields d path seen s es = .ok t) :
    d.WellKeyed (columns.map (·.name)) es ∧ (∀ name ∈ seen, ∀ v, ¬d.Gives es name v) ∧
      (∀ c ∈ columns, ∀ v, d.Gives es c.name v → c.Fits d v) ∧
      ∀ c ∈ columns, c.Overlaid d es s t := by
  induction es generalizing seen s with
  | nil =>
    obtain rfl := Except.ok.inj h
    exact ⟨Document.wellKeyed_nil _, fun name _ => Document.not_gives_nil name,
      fun c _ v hv => absurd hv (Document.not_gives_nil c.name v),
      fun c _ => .inr ⟨Document.not_gives_nil c.name, rfl⟩⟩
  | cons e es ih =>
    obtain ⟨key, value⟩ := e
    obtain ⟨f, put, hfield, hnew, hput, h⟩ := entries_cons_ok_iff.mp h
    obtain ⟨hf, hsaid⟩ := T.fieldOf_ok_iff.mp hfield
    obtain ⟨c, hc, hserves⟩ := T.exists_column hf
    rw [hserves.name_eq] at hsaid hnew h
    obtain ⟨hkeyed, hunseen, hfits, hover⟩ := ih h
    -- a key that says the name of a column is the one of that column
    have hsame {name : String} (hname : d.Says key name.toList) : name = c.name :=
      String.toList_inj.mp (hname.unique hsaid)
    have hrest := hunseen c.name List.mem_cons_self
    refine ⟨?_, ?_, ?_, ?_⟩
    · exact Document.wellKeyed_cons_iff.mpr
        ⟨⟨c.name, List.mem_map.mpr ⟨c, hc, rfl⟩, hsaid, hrest⟩, hkeyed⟩
    · intro name hname v hv
      rcases Document.gives_cons_iff.mp hv with ⟨hkey, -⟩ | hv
      · rw [hsame hkey] at hname
        exact hnew hname
      · exact hunseen name (List.mem_cons_of_mem _ hname) v hv
    · intro c' hc' v hv
      rcases Document.gives_cons_iff.mp hv with ⟨hkey, rfl⟩ | hv
      · rw [T.eq_of_name_eq hc hc' (hsame hkey)]
        exact (hserves.fits_iff d _ v).mp ⟨put, hput⟩
      · exact hfits c' hc' v hv
    · intro c' hc'
      rcases hover c' hc' with ⟨v, hv, hreads⟩ | ⟨hnone, hget⟩
      · exact .inl ⟨v, Document.gives_cons_iff.mpr (.inr hv), hreads⟩
      · by_cases hname : c'.name = c.name
        · obtain rfl := T.eq_of_name_eq hc hc' hname
          refine .inl ⟨value, Document.gives_cons_iff.mpr (.inl ⟨hsaid, rfl⟩), ?_⟩
          rw [hget]
          exact hserves.reads hput s
        · refine .inr ⟨?_, hget.trans (hserves.frame hput c' hc' hname s)⟩
          intro v hv
          rcases Document.gives_cons_iff.mp hv with ⟨hkey, -⟩ | hv
          · exact hname (hsame hkey)
          · exact hnone v hv

private theorem exists_entries_ok (T : Table fields columns) (path : Path) {seen : List String}
    (s : σ) {es : List (Node × Node)} (hkeyed : d.WellKeyed (columns.map (·.name)) es)
    (hunseen : ∀ name ∈ seen, ∀ v, ¬d.Gives es name v)
    (hfits : ∀ c ∈ columns, ∀ v, d.Gives es c.name v → c.Fits d v) :
    ∃ t, entries fields d path seen s es = .ok t := by
  induction es generalizing seen s with
  | nil => exact ⟨s, rfl⟩
  | cons e es ih =>
    obtain ⟨key, value⟩ := e
    obtain ⟨⟨name, hname, hsaid, hrest⟩, hkeyed⟩ := Document.wellKeyed_cons_iff.mp hkeyed
    obtain ⟨c, hc, rfl⟩ := List.mem_map.mp hname
    have hgives : d.Gives ((key, value) :: es) c.name value :=
      Document.gives_cons_iff.mpr (.inl ⟨hsaid, rfl⟩)
    obtain ⟨f, hf, hserves⟩ := T.exists_field hc
    have hfname := hserves.name_eq
    have hfield : fieldOf fields d path key = .ok f :=
      T.fieldOf_ok_iff.mpr ⟨hf, by rw [hfname]; exact hsaid⟩
    obtain ⟨put, hput⟩ :=
      (hserves.fits_iff d (stepTo key :: path) value).mpr (hfits c hc value hgives)
    have hnew : f.name ∉ seen := by
      intro hmem
      rw [hfname] at hmem
      exact hunseen c.name hmem value hgives
    have hunseen' : ∀ name ∈ f.name :: seen, ∀ v, ¬d.Gives es name v := by
      intro name hmem v hv
      rcases List.mem_cons.mp hmem with rfl | hmem
      · rw [hfname] at hv
        exact hrest v hv
      · exact hunseen name hmem v (Document.gives_cons_iff.mpr (.inr hv))
    obtain ⟨t, ht⟩ := ih (put s) hkeyed hunseen'
      (fun c hc v hv => hfits c hc v (Document.gives_cons_iff.mpr (.inr hv)))
    exact ⟨t, entries_cons_ok_iff.mpr ⟨f, put, hfield, hnew, hput, ht⟩⟩

private theorem record_eq_of_fields {wanted : String} {default : σ} {v : Node}
    {es : List (Node × Node)} (h : d.fields? v = some es) {t : σ} :
    record wanted fields default d path v = .ok t ↔
      entries fields d path [] default es = .ok t := by
  unfold record
  rcases Document.fields?_eq_some_iff.mp h with ⟨m, tag, hv⟩ | ⟨⟨m, tag, hv⟩, rfl⟩
  · rw [hv]
    exact mapError_eq_ok_iff
  · rw [hv]
    exact Iff.rfl

private theorem fields_of_record_ok {wanted : String} {default t : σ} {v : Node}
    (h : record wanted fields default d path v = .ok t) : ∃ es, d.fields? v = some es := by
  unfold record at h
  split at h
  · next m tag es hv => exact ⟨es, Document.fields?_eq_some_iff.mpr (.inl ⟨m, tag, hv⟩)⟩
  · next m tag hv => exact ⟨[], Document.fields?_eq_some_iff.mpr (.inr ⟨⟨m, tag, hv⟩, rfl⟩)⟩
  · cases h

/-- A record can be read exactly if its column fits, and is then what the column says. -/
theorem of_record_ok (T : Table fields columns) {wanted : String} {default t : σ} {v : Node}
    (h : record wanted fields default d path v = .ok t) :
    ∃ es, d.fields? v = some es ∧ d.WellKeyed (columns.map (·.name)) es ∧
      (∀ c ∈ columns, ∀ w, d.Gives es c.name w → c.Fits d w) ∧
      ∀ c ∈ columns, c.Overlaid d es default t := by
  obtain ⟨es, hes⟩ := fields_of_record_ok h
  obtain ⟨hkeyed, -, hfits, hover⟩ := of_entries_ok T ((record_eq_of_fields hes).mp h)
  exact ⟨es, hes, hkeyed, hfits, hover⟩

theorem exists_record_ok (T : Table fields columns) {wanted : String} {default : σ} {v : Node}
    {es : List (Node × Node)} (hes : d.fields? v = some es)
    (hkeyed : d.WellKeyed (columns.map (·.name)) es)
    (hfits : ∀ c ∈ columns, ∀ w, d.Gives es c.name w → c.Fits d w) :
    ∃ t, record wanted fields default d path v = .ok t := by
  obtain ⟨t, ht⟩ := exists_entries_ok T path default hkeyed
    (fun _ hname => (List.not_mem_nil hname).elim) hfits
  exact ⟨t, (record_eq_of_fields hes).mpr ht⟩

section Fields

variable {α : Type} {name : String} {put : α → σ → σ}

private theorem serves_of {read : Decoder α} {get : σ → α} {Fits : Document → Node → Prop}
    {Reads : Document → Node → α → Prop}
    (hfits : ∀ d path v, (∃ x, read d path v = .ok x) ↔ Fits d v)
    (hreads : ∀ {d path v x}, read d path v = .ok x → Reads d v x)
    (hget : ∀ x s, get (put x s) = x)
    (hframe : ∀ c ∈ columns, c.name ≠ name → ∀ x s, c.get (put x s) = c.get s) :
    Serves columns (.of name read put) ⟨name, α, get, Fits, Reads⟩ := by
  have hof {d : Document} {path : Path} {v : Node} {g : σ → σ} :
      (RecordField.of name read put).read d path v = .ok g ↔
        ∃ x, read d path v = .ok x ∧ put x = g := by
    change (read d path v).map put = .ok g ↔ _
    cases read d path v <;> simp [Except.map]
  constructor
  · rfl
  · intro d path v
    refine Iff.trans ?_ (hfits d path v)
    constructor
    · rintro ⟨g, hg⟩
      obtain ⟨x, hx, -⟩ := hof.mp hg
      exact ⟨x, hx⟩
    · rintro ⟨x, hx⟩
      exact ⟨put x, hof.mpr ⟨x, hx, rfl⟩⟩
  · intro d path v g hg s
    obtain ⟨x, hx, rfl⟩ := hof.mp hg
    change Reads d v (get (put x s))
    rw [hget]
    exact hreads hx
  · intro d path v g hg c' hc' hne s
    obtain ⟨x, -, rfl⟩ := hof.mp hg
    exact hframe c' hc' hne x s

theorem serves_leaf {read : Decoder α} {get : σ → α} {Reads : Document → Node → α → Prop}
    (hread : ∀ {d path v x}, read d path v = .ok x ↔ Reads d v x)
    (hget : ∀ x s, get (put x s) = x)
    (hframe : ∀ c ∈ columns, c.name ≠ name → ∀ x s, c.get (put x s) = c.get s) :
    Serves columns (.of name read put) (.leaf name get Reads) :=
  serves_of (fun _ _ _ => exists_congr fun _ => hread) hread.mp hget hframe

theorem serves_group {τ : Type} {inner : List (RecordField τ)} {innerColumns : List (Column τ)}
    (T : Table inner innerColumns) {wanted : String} {default : τ} {put : τ → σ → σ} {get : σ → τ}
    (hget : ∀ x s, get (put x s) = x)
    (hframe : ∀ c ∈ columns, c.name ≠ name → ∀ x s, c.get (put x s) = c.get s) :
    Serves columns (.of name (record wanted inner default) put)
      (.group name get innerColumns default) := by
  refine serves_of (fun d path v => ⟨?_, ?_⟩) ?_ hget hframe
  · rintro ⟨t, ht⟩
    obtain ⟨es, hes, hkeyed, hfits, -⟩ := of_record_ok T ht
    exact ⟨es, hes, hkeyed, hfits⟩
  · rintro ⟨es, hes, hkeyed, hfits⟩
    exact exists_record_ok T hes hkeyed hfits
  · intro d path v t ht
    obtain ⟨es, hes, hkeyed, -, hover⟩ := of_record_ok T ht
    exact ⟨es, hes, hkeyed, hover⟩

end Fields

end Decode

end MetaBlocks.Yaml
