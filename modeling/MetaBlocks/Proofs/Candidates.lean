import Mathlib.Data.Char
import Mathlib.Data.List.Lex
import Mathlib.Data.List.Sort
import MetaBlocks.Completion

/-!
What completion offers. Candidates are sorted by their labels and of neighbours with one label the
first stays. Sorting keeps those with one label in the order they came in, so the first that came
in stays; and the labels that stay increase strictly. These two facts fix the list.
-/

set_option autoImplicit false
set_option relaxedAutoImplicit false

namespace MetaBlocks

namespace Candidate

private theorem inOrder_iff (s t : List Char) : inOrder s t = true ↔ s ≤ t := by
  fun_induction inOrder s t with
  | case1 t =>
    rw [← not_lt]
    simp
  | case2 a s =>
    rw [← not_lt]
    simp
  | case3 a s b t ih =>
    have hlt : a.toNat < b.toNat ↔ a < b := Iff.rfl
    rw [Bool.or_eq_true, Bool.and_eq_true, ih, beq_iff_eq, decide_eq_true_eq, hlt, ← not_lt,
      ← not_lt, List.cons_lt_cons_iff]
    rcases lt_trichotomy a b with h | rfl | h
    · simp [h, h.not_gt, h.ne']
    · simp
    · simp [h, h.not_gt, h.ne']

/-- Candidates by label, those with one label in any order. -/
abbrev Ordered (cs : List Candidate) : Prop := cs.Pairwise fun a b => a.label ≤ b.label

abbrev Increasing (cs : List Candidate) : Prop := cs.Pairwise fun a b => a.label < b.label

abbrev sorted (cs : List Candidate) : List Candidate :=
  cs.mergeSort fun a b => inOrder a.label b.label

theorem inOrder_trans (a b c : Candidate) (hab : inOrder a.label b.label = true)
    (hbc : inOrder b.label c.label = true) : inOrder a.label c.label = true := by
  rw [inOrder_iff] at *
  exact hab.trans hbc

theorem inOrder_total (a b : Candidate) :
    (inOrder a.label b.label || inOrder b.label a.label) = true := by
  rw [Bool.or_eq_true, inOrder_iff, inOrder_iff]
  exact le_total a.label b.label

private theorem ordered_sorted (cs : List Candidate) : Ordered (sorted cs) :=
  (List.pairwise_mergeSort inOrder_trans inOrder_total cs).imp (inOrder_iff _ _).mp

def first? (label : List Char) (cs : List Candidate) : Option Candidate :=
  cs.find? fun c => c.label = label

private theorem first?_cons (label : List Char) (c : Candidate) (cs : List Candidate) :
    first? label (c :: cs) = if c.label = label then some c else first? label cs := by
  rw [first?, List.find?_cons]
  by_cases h : c.label = label <;> simp [h, first?]

private theorem first?_sorted (label : List Char) (cs : List Candidate) :
    first? label (sorted cs) = first? label cs := by
  -- those with the label are in order before the sort, so a stable sort keeps them as they stand
  let bears := fun c : Candidate => decide (c.label = label)
  have hsame : (cs.filter bears).Pairwise fun a b => inOrder a.label b.label = true := by
    refine List.pairwise_of_forall_mem_list fun a ha b hb => ?_
    have hla : a.label = label := by simpa [bears] using (List.mem_filter.mp ha).2
    have hlb : b.label = label := by simpa [bears] using (List.mem_filter.mp hb).2
    rw [inOrder_iff, hla, hlb]
  have hsub : (cs.filter bears).Sublist ((sorted cs).filter bears) := by
    have h := List.sublist_mergeSort inOrder_trans inOrder_total hsame List.filter_sublist
    simpa only [List.filter_filter, Bool.and_self] using h.filter bears
  have hlen : (cs.filter bears).length = ((sorted cs).filter bears).length :=
    ((List.mergeSort_perm cs _).symm.filter bears).length_eq
  calc first? label (sorted cs)
      = ((sorted cs).filter bears).head? := List.head?_filter.symm
    _ = (cs.filter bears).head? := by rw [hsub.eq_of_length hlen]
    _ = first? label cs := List.head?_filter

private theorem dropRepeats_sublist (cs : List Candidate) : (dropRepeats cs).Sublist cs := by
  fun_induction dropRepeats cs with
  | case1 => exact .slnil
  | case2 a cs hnil ih => exact (List.nil_sublist cs).cons_cons a
  | case3 a cs b bs hrest hsame ih =>
    rw [hrest] at ih
    exact ((List.sublist_cons_self b bs).trans ih).cons_cons a
  | case4 a cs b bs hrest hdiffer ih =>
    rw [hrest] at ih
    exact ih.cons_cons a

private theorem increasing_dropRepeats {cs : List Candidate} (h : Ordered cs) :
    Increasing (dropRepeats cs) := by
  fun_induction dropRepeats cs with
  | case1 => exact .nil
  | case2 a cs hnil ih => exact List.pairwise_singleton _ a
  | case3 a cs b bs hrest hsame ih =>
    have hbs := ih h.tail
    rw [hrest, Increasing, List.pairwise_cons] at hbs
    refine List.pairwise_cons.mpr ⟨fun c hc => ?_, hbs.2⟩
    rw [hsame]
    exact hbs.1 c hc
  | case4 a cs b bs hrest hdiffer ih =>
    have hbs := ih h.tail
    -- what stays of the rest starts with a later candidate, whose label is no smaller and differs
    have hb : b ∈ cs := (dropRepeats_sublist cs).subset (by rw [hrest]; exact List.mem_cons_self)
    have hab : a.label < b.label := lt_of_le_of_ne ((List.pairwise_cons.mp h).1 b hb) hdiffer
    rw [hrest] at hbs
    refine List.pairwise_cons.mpr ⟨fun c hc => ?_, hbs⟩
    rcases List.mem_cons.mp hc with rfl | hc
    · exact hab
    · exact hab.trans ((List.pairwise_cons.mp hbs).1 c hc)

private theorem first?_dropRepeats (label : List Char) (cs : List Candidate) :
    first? label (dropRepeats cs) = first? label cs := by
  fun_induction dropRepeats cs with
  | case1 => rfl
  | case2 a cs hnil ih =>
    rw [hnil] at ih
    rw [first?_cons, ih, first?_cons]
  | case3 a cs b bs hrest hsame ih =>
    rw [hrest, first?_cons, ← hsame] at ih
    rw [first?_cons, first?_cons, ← ih]
    split <;> rfl
  | case4 a cs b bs hrest hdiffer ih =>
    rw [hrest] at ih
    rw [first?_cons, ih, first?_cons]

theorem increasing_arrange (cs : List Candidate) : Increasing (arrange cs) :=
  increasing_dropRepeats (ordered_sorted cs)

private theorem first?_arrange (label : List Char) (cs : List Candidate) :
    first? label (arrange cs) = first? label cs :=
  (first?_dropRepeats label _).trans (first?_sorted label cs)

private theorem Increasing.mem_iff {cs : List Candidate} (h : Increasing cs) (c : Candidate) :
    c ∈ cs ↔ first? c.label cs = some c := by
  induction cs with
  | nil => simp [first?]
  | cons a cs ih =>
    obtain ⟨ha, hcs⟩ := List.pairwise_cons.mp h
    rw [first?_cons, List.mem_cons]
    by_cases hlabel : a.label = c.label
    · rw [if_pos hlabel, Option.some.injEq, eq_comm]
      refine or_iff_left fun hc => ?_
      exact absurd hlabel (ha c hc).ne
    · rw [if_neg hlabel, ← ih hcs]
      refine or_iff_right fun hca => hlabel ?_
      rw [hca]

theorem mem_arrange_iff (c : Candidate) (cs : List Candidate) :
    c ∈ arrange cs ↔ first? c.label cs = some c := by
  rw [(increasing_arrange cs).mem_iff, first?_arrange]

instance : Std.Asymm fun a b : Candidate => a.label < b.label :=
  ⟨fun _ _ hab hba => hab.not_gt hba⟩

theorem mem_of_mem_arrange {c : Candidate} {cs : List Candidate} (h : c ∈ arrange cs) : c ∈ cs :=
  List.mem_mergeSort.mp ((dropRepeats_sublist _).subset h)

private theorem mem_arrange_of_label {cs : List Candidate}
    (h : ∀ a ∈ cs, ∀ b ∈ cs, a.label = b.label → a = b) (c : Candidate) :
    c ∈ arrange cs ↔ c ∈ cs := by
  refine ⟨mem_of_mem_arrange, fun hc => (mem_arrange_iff c cs).mpr ?_⟩
  cases hfirst : first? c.label cs with
  | none =>
    have hno := List.find?_eq_none.mp hfirst c hc
    simp at hno
  | some a =>
    have ha : a ∈ cs := List.mem_of_find?_eq_some hfirst
    have hlabel : a.label = c.label := by simpa using List.find?_some hfirst
    rw [h a ha c hc hlabel]

def IsScopeElsewhere (blocks : List Block) (line : Nat) (label : List Char) : Prop :=
  label ≠ [] ∧ ∃ b ∈ blocks, ∃ k ∈ b.declarations,
    k.keyword = .scope ∧ k.line ≠ line ∧ k.name = label

private theorem mem_ofScopes_iff (blocks : List Block) (line : Nat) (c : Candidate) :
    c ∈ ofScopes blocks line ↔
      IsScopeElsewhere blocks line c.label ∧ c.detail = none ∧ c.kind = .scope := by
  have hnamed (c : Candidate) : (c ∈ (blocks.flatMap (·.declarations)).filterMap fun d =>
      if d.keyword = .scope && d.line != line && !d.name.isEmpty then
        some ⟨d.name, none, .scope⟩
      else none) ↔ IsScopeElsewhere blocks line c.label ∧ c.detail = none ∧ c.kind = .scope := by
    simp only [List.mem_filterMap, List.mem_flatMap, Option.ite_none_right_eq_some,
      Option.some.injEq, Bool.and_eq_true, decide_eq_true_eq, bne_iff_ne, Bool.not_eq_true',
      List.isEmpty_eq_false_iff]
    constructor
    · rintro ⟨k, ⟨b, hb, hk⟩, ⟨⟨hkeyword, hline⟩, hname⟩, rfl⟩
      exact ⟨⟨hname, b, hb, k, hk, hkeyword, hline, rfl⟩, rfl, rfl⟩
    · rintro ⟨⟨hne, b, hb, k, hk, hkeyword, hline, hname⟩, hdetail, hkind⟩
      refine ⟨k, ⟨b, hb, hk⟩, ⟨⟨hkeyword, hline⟩, by rwa [hname]⟩, ?_⟩
      rw [hname, ← hdetail, ← hkind]
  rw [ofScopes, mem_arrange_of_label, hnamed]
  intro a ha b hb hlabel
  obtain ⟨-, hdetail, hkind⟩ := (hnamed a).mp ha
  obtain ⟨-, hdetail', hkind'⟩ := (hnamed b).mp hb
  cases a
  cases b
  simp_all

def description? (catalog : Catalog) (name : List Char) : Option (Option (List Char)) :=
  (catalog.find? fun t => t.name = name).map Template.description

private theorem first?_templates {label : List Char} (hlabel : label ≠ []) (catalog : Catalog) :
    (first? label <| catalog.filterMap fun t =>
      if t.name.isEmpty then none else some ⟨t.name, t.description, .template⟩) =
    (description? catalog label).map fun detail => ⟨label, detail, .template⟩ := by
  induction catalog with
  | nil => rfl
  | cons t catalog ih =>
    rw [description?, List.find?_cons]
    by_cases hname : t.name = label
    · simp [hname, hlabel, first?_cons]
    · simp only [hname, decide_false]
      rw [← description?, ← ih]
      by_cases hempty : t.name.isEmpty = true
      · simp only [List.filterMap_cons, if_pos hempty]
      · simp only [List.filterMap_cons, if_neg hempty, first?_cons, if_neg hname]

private theorem mem_ofCatalog_iff (catalog : Catalog) (c : Candidate) :
    c ∈ ofCatalog catalog ↔
      c.label ≠ [] ∧ description? catalog c.label = some c.detail ∧ c.kind = .template := by
  by_cases hlabel : c.label = []
  · refine iff_of_false (fun hc => ?_) fun h => h.1 hlabel
    obtain ⟨t, -, ht⟩ := List.mem_filterMap.mp (mem_of_mem_arrange hc)
    rw [Option.ite_none_left_eq_some, Option.some.injEq] at ht
    obtain ⟨hname, rfl⟩ := ht
    exact hname (List.isEmpty_iff.mpr hlabel)
  · rw [ofCatalog, mem_arrange_iff, first?_templates hlabel, Option.map_eq_some_iff]
    constructor
    · rintro ⟨detail, hdetail, hc⟩
      have hsame : detail = c.detail := congrArg Candidate.detail hc
      refine ⟨hlabel, ?_, (congrArg Candidate.kind hc).symm⟩
      rw [hdetail, hsame]
    · rintro ⟨-, hdetail, hkind⟩
      exact ⟨c.detail, hdetail, by rw [← hkind]⟩

end Candidate

private theorem CompletionContext.line_of_atCursor? {d : Document} {cursor : Nat}
    {x : CompletionContext} (h : atCursor? d cursor = some x) :
    x.line = (d.position cursor).1 + 1 := by
  have hclamp : d.clamp (d.clamp cursor) = d.clamp cursor := by
    simp [Document.clamp]
  have hline : (d.beforeCursor cursor).1 = (d.position cursor).1 + 1 := by
    simp only [Document.beforeCursor, Document.position, hclamp]
  obtain ⟨k, -, hx⟩ := Option.bind_eq_some_iff.mp h
  rw [← hline]
  exact congrArg CompletionContext.line (Option.some.inj hx).symm

namespace Candidate

private theorem increasing_ofScopes (blocks : List Block) (line : Nat) :
    Increasing (ofScopes blocks line) := increasing_arrange _

private theorem increasing_ofCatalog (catalog : Catalog) : Increasing (ofCatalog catalog) :=
  increasing_arrange _

/-- The scope names of other lines, each once and in code point order, with nothing else to say. -/
structure OffersScopes (blocks : List Block) (line : Nat) (cs : List Candidate) : Prop where
  increasing : (cs.map label).Pairwise (· < ·)
  labels : ∀ name, name ∈ cs.map label ↔ IsScopeElsewhere blocks line name
  bare : ∀ c ∈ cs, c.detail = none ∧ c.kind = .scope

/-- The template names of a catalog, each once and in code point order, each with the description of
the first template of that name. -/
structure OffersTemplates (catalog : Catalog) (cs : List Candidate) : Prop where
  increasing : (cs.map label).Pairwise (· < ·)
  labels : ∀ name, name ∈ cs.map label ↔ name ≠ [] ∧ ∃ t ∈ catalog, t.name = name
  details : ∀ c ∈ cs, description? catalog c.label = some c.detail ∧ c.kind = .template

private theorem offersScopes (blocks : List Block) (line : Nat) :
    OffersScopes blocks line (ofScopes blocks line) := by
  refine ⟨List.pairwise_map.mpr (increasing_ofScopes blocks line), fun name => ?_, fun c hc => ?_⟩
  · rw [List.mem_map]
    constructor
    · rintro ⟨c, hc, rfl⟩
      exact ((mem_ofScopes_iff blocks line c).mp hc).1
    · intro h
      exact ⟨⟨name, none, .scope⟩, (mem_ofScopes_iff blocks line _).mpr ⟨h, rfl, rfl⟩, rfl⟩
  · exact ((mem_ofScopes_iff blocks line c).mp hc).2

private theorem exists_description?_iff (catalog : Catalog) (name : List Char) :
    (∃ detail, description? catalog name = some detail) ↔ ∃ t ∈ catalog, t.name = name := by
  rw [← Option.isSome_iff_exists, description?, Option.isSome_map, List.find?_isSome]
  simp only [decide_eq_true_eq]

private theorem offersTemplates (catalog : Catalog) :
    OffersTemplates catalog (ofCatalog catalog) := by
  refine ⟨List.pairwise_map.mpr (increasing_ofCatalog catalog), fun name => ?_, fun c hc => ?_⟩
  · rw [List.mem_map, ← exists_description?_iff]
    constructor
    · rintro ⟨c, hc, rfl⟩
      obtain ⟨hlabel, hdetail, -⟩ := (mem_ofCatalog_iff catalog c).mp hc
      exact ⟨hlabel, c.detail, hdetail⟩
    · rintro ⟨hname, detail, hdetail⟩
      refine ⟨⟨name, detail, .template⟩, ?_, rfl⟩
      exact (mem_ofCatalog_iff catalog _).mpr ⟨hname, hdetail, rfl⟩
  · exact ((mem_ofCatalog_iff catalog c).mp hc).2

private theorem ofScopes_perm {blocks blocks' : List Block} (h : blocks.Perm blocks') (line : Nat) :
    ofScopes blocks line = ofScopes blocks' line := by
  refine (increasing_ofScopes blocks line).eq_of_mem_iff (increasing_ofScopes blocks' line) ?_
  intro c
  simp only [mem_ofScopes_iff, IsScopeElsewhere, h.mem_iff]

private theorem ofCatalog_congr {catalog catalog' : Catalog}
    (h : ∀ name, name ≠ [] → description? catalog name = description? catalog' name) :
    ofCatalog catalog = ofCatalog catalog' := by
  refine (increasing_ofCatalog catalog).eq_of_mem_iff (increasing_ofCatalog catalog') ?_
  intro c
  rw [mem_ofCatalog_iff, mem_ofCatalog_iff]
  refine and_congr_right fun hlabel => ?_
  rw [h c.label hlabel]

private theorem labels_ofCatalog_perm {catalog catalog' : Catalog} (h : catalog.Perm catalog') :
    (ofCatalog catalog).map label = (ofCatalog catalog').map label := by
  have ho := offersTemplates catalog
  have ho' := offersTemplates catalog'
  refine ho.increasing.eq_of_mem_iff ho'.increasing fun name => ?_
  rw [ho.labels, ho'.labels]
  simp only [h.mem_iff]

/-- What completion offers, in every context, for any blocks and any catalog. The order of the
blocks never matters, and that of the catalog only as far as it decides which template of a name is
the first. -/
theorem atCursor_offers (d : Document) (cursor : Nat) (blocks : List Block) (catalog : Catalog) :
    (CompletionContext.atCursor? d cursor = none → atCursor d cursor blocks catalog = []) ∧
    (∀ x, CompletionContext.atCursor? d cursor = some x →
      (x.keyword = .scope → OffersScopes blocks ((d.position cursor).1 + 1)
        (atCursor d cursor blocks catalog)) ∧
      (x.keyword = .quill → OffersTemplates catalog (atCursor d cursor blocks catalog))) ∧
    (∀ blocks', blocks.Perm blocks' →
      atCursor d cursor blocks' catalog = atCursor d cursor blocks catalog) ∧
    ∀ catalog', catalog.Perm catalog' →
      (atCursor d cursor blocks catalog').map label = (atCursor d cursor blocks catalog).map label ∧
      ((∀ name, name ≠ [] → description? catalog name = description? catalog' name) →
        atCursor d cursor blocks catalog' = atCursor d cursor blocks catalog) := by
  cases hx : CompletionContext.atCursor? d cursor with
  | none => simp [atCursor, hx]
  | some x =>
    have hline := CompletionContext.line_of_atCursor? hx
    have hanswer (bs : List Block) (ts : Catalog) :
        atCursor d cursor bs ts = ofContext x bs ts := by
      rw [atCursor, hx]
    simp only [hanswer, ofContext]
    cases hk : x.keyword with
    | scope =>
      refine ⟨nofun, fun y hy => ?_, fun blocks' hperm => (ofScopes_perm hperm x.line).symm,
        fun catalog' _ => ⟨rfl, fun _ => rfl⟩⟩
      obtain rfl := Option.some.inj hy
      refine ⟨fun _ => ?_, fun hquill => ?_⟩
      · rw [← hline]
        exact offersScopes blocks x.line
      · rw [hk] at hquill
        cases hquill
    | quill =>
      refine ⟨nofun, fun y hy => ?_, fun _ _ => rfl, fun catalog' hperm => ⟨?_, fun hfirst => ?_⟩⟩
      · obtain rfl := Option.some.inj hy
        refine ⟨fun hscope => ?_, fun _ => offersTemplates catalog⟩
        rw [hk] at hscope
        cases hscope
      · exact (labels_ofCatalog_perm hperm).symm
      · exact (ofCatalog_congr hfirst).symm

theorem atCursor_offers_duplicates :
    let d : Document := .ofText "QUILL: \nSCOPE: ".toList
    let scope (line : Nat) (name : List Char) : Declaration := ⟨.scope, line, ⟨0, 0⟩, name, ⟨0, 0⟩⟩
    let blocks : List Block :=
      [{ (default : Block) with declarations := [scope 2 ['b'], scope 3 ['c'], scope 4 []] },
        { (default : Block) with declarations := [scope 7 ['a'], scope 8 ['c']] }]
    let catalog : Catalog := [⟨['r'], some ['1']⟩, ⟨['m'], none⟩, ⟨['r'], some ['2']⟩, ⟨[], none⟩]
    atCursor d 15 blocks catalog = [⟨['a'], none, .scope⟩, ⟨['c'], none, .scope⟩] ∧
      OffersScopes blocks 2 (atCursor d 15 blocks catalog) ∧
      atCursor d 15 blocks.reverse catalog = atCursor d 15 blocks catalog ∧
      atCursor d 7 blocks catalog = [⟨['m'], none, .template⟩, ⟨['r'], some ['1'], .template⟩] ∧
      OffersTemplates catalog (atCursor d 7 blocks catalog) ∧
      (atCursor d 7 blocks catalog.reverse).map label = (atCursor d 7 blocks catalog).map label ∧
      atCursor d 0 blocks catalog = [] := by
  intro d scope blocks catalog
  have hscope : CompletionContext.atCursor? d 15 = some ⟨.scope, 2, [], ⟨15, 15⟩⟩ := by
    decide +kernel
  have hquill : CompletionContext.atCursor? d 7 = some ⟨.quill, 1, [], ⟨7, 7⟩⟩ := by
    decide +kernel
  have hnone : CompletionContext.atCursor? d 0 = none := by decide +kernel
  obtain ⟨-, hscopes, hblocks, -⟩ := atCursor_offers d 15 blocks catalog
  obtain ⟨-, htemplates, -, hcatalog⟩ := atCursor_offers d 7 blocks catalog
  refine ⟨?_, (hscopes _ hscope).1 rfl, hblocks _ (List.reverse_perm blocks).symm, ?_,
    (htemplates _ hquill).2 rfl, (hcatalog _ (List.reverse_perm catalog).symm).1,
    (atCursor_offers d 0 blocks catalog).1 hnone⟩
  · rw [atCursor, hscope]
    simp [ofContext, ofScopes, arrange, List.mergeSort, dropRepeats, inOrder, blocks, scope]
  · rw [atCursor, hquill]
    simp [ofContext, ofCatalog, arrange, List.mergeSort, dropRepeats, inOrder, catalog]

end Candidate

end MetaBlocks
