import Mathlib.Data.List.Lex
import Mathlib.Data.List.Nodup
import Mathlib.Data.List.Sort
import WorkflowAudit.Graph.Search

/-! The search for tagged nodes returns the paths that a rule without any state describes, in
lexicographic order. -/

namespace WorkflowAudit.Graph

open Progress

def IsHardGate (g : Graph) (i : Nat) : Prop :=
  ∃ n, g.nodes[i]? = some n ∧ n.traits?.any (·.hardGate) = true

def IsSoftGate (g : Graph) (i : Nat) : Prop :=
  ∃ n, g.nodes[i]? = some n ∧ n.traits?.any (·.softGate) = true

def ChecksOutMutably (g : Graph) (i : Nat) : Prop :=
  ∃ n, g.nodes[i]? = some n ∧ isMutableCheckout n = true

def IsOpen (g : Graph) (i : Nat) : Prop := ∃ n, g.nodes[i]? = some n ∧ n.isRestricted = false

def HasSoftGate (g : Graph) (l : List Nat) : Prop := ∃ i ∈ l, g.IsSoftGate i

structure TaggedPath (g : Graph) (start : Nat) (tag : String) (p : List Nat) : Prop where
  begins : p.head? = some start
  consecutive : p.IsChain fun i j => j ∈ g.successors i
  simple : p.Nodup
  isOpen : ∀ i ∈ p, g.IsOpen i
  noHardGate : ∀ i ∈ p.dropLast, ¬ g.IsHardGate i
  labeled : g.HasSoftGate p.dropLast → g.hasTag start labeledTrigger = true
  tagged : ∃ k ∈ p.getLast?, g.hasTag k tag = true
  /-- The checkout may stand before or behind the gate, and may be the last node. -/
  mutable : g.HasSoftGate p.dropLast → ∃ i ∈ p, g.ChecksOutMutably i

/-- What is left of a path once `passed` lies behind with the progress `pr`. -/
structure Remainder (g : Graph) (tag : String) (pr : Progress) (passed l : List Nat) : Prop where
  consecutive : l.IsChain fun i j => j ∈ g.successors i
  simple : l.Nodup
  fresh : ∀ i ∈ l, i ∉ passed
  isOpen : ∀ i ∈ l, g.IsOpen i
  noHardGate : ∀ i ∈ l.dropLast, ¬ g.IsHardGate i
  labeled : g.HasSoftGate l.dropLast → pr.labeled = true
  tagged : ∃ k ∈ l.getLast?, g.hasTag k tag = true
  mutable : pr.softGated = true ∨ g.HasSoftGate l.dropLast →
    pr.mutableCheckout = true ∨ ∃ i ∈ l, g.ChecksOutMutably i

/-- The search, one node at a time, along a single path. -/
inductive Leads (g : Graph) (tag : String) : Progress → List Nat → List Nat → Prop
  | found {pr passed i n} : g.nodes[i]? = some n → i ∉ passed → n.isRestricted = false →
      n.tags.contains tag = true → pr.counts n = true → Leads g tag pr passed [i]
  | further {pr pr' passed i n j rest} : g.nodes[i]? = some n → i ∉ passed →
      n.isRestricted = false → pr.past? n = some pr' → j ∈ g.successors i →
      Leads g tag pr' (passed ++ [i]) (j :: rest) → Leads g tag pr passed (i :: j :: rest)

lemma isHardGate_iff {g : Graph} {i : Nat} {n : Node} (h : g.nodes[i]? = some n) :
    g.IsHardGate i ↔ n.traits?.any (·.hardGate) = true := by
  simp [IsHardGate, h]

lemma isSoftGate_iff {g : Graph} {i : Nat} {n : Node} (h : g.nodes[i]? = some n) :
    g.IsSoftGate i ↔ n.traits?.any (·.softGate) = true := by
  simp [IsSoftGate, h]

lemma checksOutMutably_iff {g : Graph} {i : Nat} {n : Node} (h : g.nodes[i]? = some n) :
    g.ChecksOutMutably i ↔ isMutableCheckout n = true := by
  simp [ChecksOutMutably, h]

lemma isOpen_iff {g : Graph} {i : Nat} {n : Node} (h : g.nodes[i]? = some n) :
    g.IsOpen i ↔ n.isRestricted = false := by
  simp [IsOpen, h]

lemma hasTag_iff {g : Graph} {i : Nat} {n : Node} (h : g.nodes[i]? = some n) (tag : String) :
    g.hasTag i tag = true ↔ n.tags.contains tag = true := by
  simp [hasTag, h]

lemma Node.mem_tags_iff {n : Node} (h : n.isInitialized = true) {tag : String} :
    tag ∈ n.tags ↔ tag = n.kind.tag ∨ tag ∈ n.ownTags := by
  rw [tags, Text.mem_ascending, if_pos h]
  exact List.mem_cons

lemma injectable_mem_tags_iff {s : Step} :
    "injectable" ∈ (Node.step s).tags ↔ s.traits.injectable = true := by
  rw [Node.mem_tags_iff rfl]
  simp [Node.ownTags, Node.traitTags, Node.kind, Kind.tag]

lemma hasTag_iff_of_isInitialized {g : Graph} {i : Nat} {n : Node} (h : g.nodes[i]? = some n)
    (hn : n.isInitialized = true) {tag : String} :
    g.hasTag i tag = true ↔ tag = n.kind.tag ∨ tag ∈ n.ownTags := by
  rw [hasTag_iff h, List.contains_iff_mem, Node.mem_tags_iff hn]

lemma not_hasTag_labeled_of_job {g : Graph} {x : Nat} {job : Job}
    (hx : g.nodes[x]? = some (.job job)) :
    ¬ g.hasTag x labeledTrigger = true := by
  rw [hasTag_iff_of_isInitialized hx rfl]
  have hkind : ¬ labeledTrigger = Kind.job.tag := by decide
  rintro (h | h)
  · exact hkind h
  · rw [Node.ownTags] at h
    split at h
    · exact absurd (List.mem_singleton.mp h) (by decide)
    · exact absurd h List.not_mem_nil

lemma hasSoftGate_nil (g : Graph) : ¬ g.HasSoftGate [] := by
  simp [HasSoftGate]

lemma hasSoftGate_cons (g : Graph) (i : Nat) (l : List Nat) :
    g.HasSoftGate (i :: l) ↔ g.IsSoftGate i ∨ g.HasSoftGate l := by
  simp [HasSoftGate]

lemma counts_iff (pr : Progress) (n : Node) :
    pr.counts n = true ↔
      (pr.softGated = true → pr.mutableCheckout = true ∨ isMutableCheckout n = true) := by
  cases h : pr.softGated <;> simp [counts, h]

lemma past?_eq_some_iff (pr pr' : Progress) (n : Node) :
    pr.past? n = some pr' ↔
      n.traits?.any (·.hardGate) = false ∧ (n.traits?.any (·.softGate) = true → pr.labeled = true) ∧
      pr' = ⟨pr.labeled, pr.mutableCheckout || isMutableCheckout n,
        pr.softGated || (n.traits?.any (·.softGate) && !pr.mutableCheckout)⟩ := by
  cases hh : n.traits?.any (·.hardGate) <;> cases hs : n.traits?.any (·.softGate) <;>
    cases hl : pr.labeled <;> simp [past?, hh, hs, hl, eq_comm]

variable {g : Graph} {tag : String} {pr : Progress} {passed : List Nat} {i j : Nat} {n : Node}

lemma remainder_singleton (h : g.nodes[i]? = some n) :
    Remainder g tag pr passed [i] ↔
      i ∉ passed ∧ n.isRestricted = false ∧ n.tags.contains tag = true ∧ pr.counts n = true := by
  rw [← isOpen_iff h, ← hasTag_iff h, counts_iff, ← checksOutMutably_iff h]
  constructor
  · intro r
    refine ⟨r.fresh i (by simp), r.isOpen i (by simp), by simpa using r.tagged, ?_⟩
    intro hs
    simpa using r.mutable (Or.inl hs)
  · rintro ⟨hp, ho, ht, hc⟩
    refine ⟨by simp, by simp, by simpa using hp, by simpa using ho, by simp, ?_, by simpa using ht, ?_⟩
    · exact fun hs => absurd hs (hasSoftGate_nil g)
    · rintro (hs | hs)
      · simpa using hc hs
      · exact absurd hs (hasSoftGate_nil g)

lemma remainder_cons_cons (h : g.nodes[i]? = some n) (rest : List Nat) :
    Remainder g tag pr passed (i :: j :: rest) ↔
      i ∉ passed ∧ n.isRestricted = false ∧ ∃ pr', pr.past? n = some pr' ∧ j ∈ g.successors i ∧
        Remainder g tag pr' (passed ++ [i]) (j :: rest) := by
  rw [← isOpen_iff h]
  constructor
  · intro r
    have hc := List.isChain_cons_cons.mp r.consecutive
    have hn := List.nodup_cons.mp r.simple
    have hh : ¬ g.IsHardGate i := r.noHardGate i (by simp)
    rw [isHardGate_iff h, Bool.not_eq_true] at hh
    refine ⟨r.fresh i (by simp), r.isOpen i (by simp), _,
      (past?_eq_some_iff pr _ n).mpr ⟨hh, ?_, rfl⟩, hc.1, ⟨hc.2, hn.2, ?_, ?_, ?_, ?_, ?_, ?_⟩⟩
    · intro hs
      exact r.labeled ((hasSoftGate_cons g i _).mpr (Or.inl ((isSoftGate_iff h).mpr hs)))
    · intro k hk hp
      rcases List.mem_append.mp hp with hp | hp
      · exact r.fresh k (List.mem_cons_of_mem _ hk) hp
      · exact hn.1 (List.mem_singleton.mp hp ▸ hk)
    · exact fun k hk => r.isOpen k (List.mem_cons_of_mem _ hk)
    · exact fun k hk => r.noHardGate k (List.mem_cons_of_mem _ hk)
    · exact fun hs => r.labeled ((hasSoftGate_cons g i _).mpr (Or.inr hs))
    · simpa using r.tagged
    · intro hs
      have hm := r.mutable
      rw [List.dropLast_cons_cons, hasSoftGate_cons, isSoftGate_iff h] at hm
      simp only [List.mem_cons, exists_eq_or_imp, checksOutMutably_iff h] at hm ⊢
      grind
  · rintro ⟨hp, ho, pr', hpast, hj, r⟩
    obtain ⟨hh, hl, rfl⟩ := (past?_eq_some_iff pr pr' n).mp hpast
    refine ⟨List.isChain_cons_cons.mpr ⟨hj, r.consecutive⟩, List.nodup_cons.mpr ⟨?_, r.simple⟩,
      ?_, ?_, ?_, ?_, ?_, ?_⟩
    · exact fun hi => r.fresh i hi (by simp)
    · intro k hk hkp
      rcases List.mem_cons.mp hk with rfl | hk
      · exact hp hkp
      · exact r.fresh k hk (List.mem_append_left _ hkp)
    · intro k hk
      rcases List.mem_cons.mp hk with rfl | hk
      · exact ho
      · exact r.isOpen k hk
    · intro k hk
      rcases List.mem_cons.mp hk with rfl | hk
      · rw [isHardGate_iff h, hh]
        exact Bool.false_ne_true
      · exact r.noHardGate k hk
    · intro hs
      rcases (hasSoftGate_cons g i _).mp hs with hs | hs
      · exact hl ((isSoftGate_iff h).mp hs)
      · exact r.labeled hs
    · simpa using r.tagged
    · intro hs
      have hm := r.mutable
      rw [List.dropLast_cons_cons, hasSoftGate_cons, isSoftGate_iff h] at hs
      simp only [List.mem_cons, exists_eq_or_imp, checksOutMutably_iff h] at hm ⊢
      grind

lemma leads_iff_remainder (l : List Nat) (hl : l ≠ []) :
    Leads g tag pr passed l ↔ Remainder g tag pr passed l := by
  induction l generalizing pr passed with
  | nil => exact absurd rfl hl
  | cons i rest ih =>
    cases rest with
    | nil =>
      constructor
      · rintro (⟨h, hp, ho, ht, hc⟩ | _)
        exact (remainder_singleton h).mpr ⟨hp, ho, ht, hc⟩
      · intro r
        obtain ⟨n, h, _⟩ := r.isOpen i (by simp)
        obtain ⟨hp, ho, ht, hc⟩ := (remainder_singleton h).mp r
        exact .found h hp ho ht hc
    | cons j rest =>
      constructor
      · rintro (_ | ⟨h, hp, ho, hpast, hj, hr⟩)
        exact (remainder_cons_cons h rest).mpr ⟨hp, ho, _, hpast, hj, (ih (by simp)).mp hr⟩
      · intro r
        obtain ⟨n, h, _⟩ := r.isOpen i (by simp)
        obtain ⟨hp, ho, pr', hpast, hj, hr⟩ := (remainder_cons_cons h rest).mp r
        exact .further h hp ho hpast hj ((ih (by simp)).mpr hr)

lemma taggedPath_iff_remainder (g : Graph) (start : Nat) (tag : String) (p : List Nat) :
    TaggedPath g start tag p ↔
      p.head? = some start ∧ Remainder g tag ⟨g.hasTag start labeledTrigger, false, false⟩ [] p := by
  constructor
  · intro t
    exact ⟨t.begins, t.consecutive, t.simple, by simp, t.isOpen, t.noHardGate, t.labeled, t.tagged,
      by simpa using t.mutable⟩
  · rintro ⟨hs, r⟩
    exact ⟨hs, r.consecutive, r.simple, r.isOpen, r.noHardGate, r.labeled, r.tagged,
      by simpa using r.mutable⟩

lemma pathsFrom_succ (fuel : Nat) (h : g.nodes[i]? = some n) (hp : i ∉ passed)
    (ho : n.isRestricted = false) :
    g.pathsFrom tag (fuel + 1) pr passed i =
      (if n.tags.contains tag && pr.counts n then [passed ++ [i]] else []) ++
        (pr.past? n).elim [] fun pr' =>
          (g.successors i).flatMap (g.pathsFrom tag fuel pr' (passed ++ [i])) := by
  cases hpast : pr.past? n <;> simp [pathsFrom, h, hp, ho, hpast]

lemma enters_or_pathsFrom_eq_nil (g : Graph) (tag : String) (fuel : Nat) (pr : Progress)
    (passed : List Nat) (i : Nat) :
    (∃ n, g.nodes[i]? = some n ∧ i ∉ passed ∧ n.isRestricted = false) ∨
      g.pathsFrom tag fuel pr passed i = [] := by
  cases fuel with
  | zero => exact Or.inr rfl
  | succ fuel =>
    cases h : g.nodes[i]? with
    | none => simp [pathsFrom, h]
    | some n =>
      by_cases hp : i ∈ passed
      · simp [pathsFrom, h, hp]
      · cases ho : n.isRestricted with
        | false => exact Or.inl ⟨n, rfl, hp, ho⟩
        | true => simp [pathsFrom, h, ho]

lemma mem_found_iff (h : g.nodes[i]? = some n) (hp : i ∉ passed) (ho : n.isRestricted = false)
    (p : List Nat) :
    p ∈ (if n.tags.contains tag && pr.counts n then [passed ++ [i]] else []) ↔
      p = passed ++ [i] ∧ Leads g tag pr passed [i] := by
  rw [leads_iff_remainder _ (by simp), remainder_singleton h]
  split <;> simp_all

lemma mem_pathsFrom_iff (g : Graph) (tag : String) (fuel : Nat) (pr : Progress)
    (passed : List Nat) (i : Nat) (p : List Nat) :
    p ∈ g.pathsFrom tag fuel pr passed i ↔
      ∃ rest, p = passed ++ i :: rest ∧ rest.length < fuel ∧ Leads g tag pr passed (i :: rest) := by
  induction fuel generalizing pr passed i with
  | zero => simp [pathsFrom]
  | succ fuel ih =>
    by_cases hopen : ∃ n, g.nodes[i]? = some n ∧ i ∉ passed ∧ n.isRestricted = false
    · obtain ⟨n, h, hp, ho⟩ := hopen
      rw [pathsFrom_succ fuel h hp ho, List.mem_append, mem_found_iff h hp ho]
      constructor
      · rintro (⟨rfl, hl⟩ | hm)
        · exact ⟨[], rfl, Nat.succ_pos _, hl⟩
        · cases hpast : pr.past? n with
          | none => simp [hpast] at hm
          | some pr' =>
            simp only [hpast, Option.elim_some, List.mem_flatMap, ih] at hm
            obtain ⟨j, hj, rest, rfl, hlen, hl⟩ := hm
            exact ⟨j :: rest, by simp, Nat.succ_lt_succ hlen, .further h hp ho hpast hj hl⟩
      · rintro ⟨rest, rfl, hlen, hl⟩
        cases hl with
        | found => exact Or.inl ⟨rfl, .found ‹_› ‹_› ‹_› ‹_› ‹_›⟩
        | @further _ pr' _ _ n' j rest h' _ _ hpast hj hl =>
          obtain rfl : n = n' := Option.some.inj (h.symm.trans h')
          right
          simp only [hpast, Option.elim_some, List.mem_flatMap, ih]
          exact ⟨j, hj, rest, by simp, Nat.lt_of_succ_lt_succ hlen, hl⟩
    · have hnil := (enters_or_pathsFrom_eq_nil g tag (fuel + 1) pr passed i).resolve_left hopen
      simp only [hnil, List.not_mem_nil, false_iff]
      rintro ⟨rest, -, -, hl⟩
      cases hl <;> exact hopen ⟨_, ‹_›, ‹_›, ‹_›⟩

lemma pairwise_lt_successors (g : Graph) (i : Nat) : (g.successors i).Pairwise (· < ·) :=
  List.Pairwise.filter _ List.pairwise_lt_range

lemma append_lt_append {a b : Nat} (l : List Nat) (h : a < b) (r s : List Nat) :
    l ++ a :: r < l ++ b :: s := by
  induction l with
  | nil => exact List.Lex.rel h
  | cons x l ih => exact List.Lex.cons ih

lemma lt_append_cons (l : List Nat) (a : Nat) (r : List Nat) : l < l ++ a :: r := by
  induction l with
  | nil => exact List.Lex.nil
  | cons x l ih => exact List.Lex.cons ih

lemma pairwise_lt_pathsFrom (g : Graph) (tag : String) (fuel : Nat) (pr : Progress)
    (passed : List Nat) (i : Nat) : (g.pathsFrom tag fuel pr passed i).Pairwise (· < ·) := by
  induction fuel generalizing pr passed i with
  | zero => exact List.Pairwise.nil
  | succ fuel ih =>
    rcases enters_or_pathsFrom_eq_nil g tag (fuel + 1) pr passed i with ⟨n, h, hp, ho⟩ | hnil
    · have hbeyond : ∀ pr' : Progress,
          ((g.successors i).flatMap (g.pathsFrom tag fuel pr' (passed ++ [i]))).Pairwise (· < ·) := by
        intro pr'
        refine List.pairwise_flatMap.mpr ⟨fun j _ => ih pr' _ j, ?_⟩
        refine (pairwise_lt_successors g i).imp fun {j k} hjk p hpj q hqk => ?_
        obtain ⟨r, rfl, -⟩ := (mem_pathsFrom_iff g tag fuel pr' _ j p).mp hpj
        obtain ⟨s, rfl, -⟩ := (mem_pathsFrom_iff g tag fuel pr' _ k q).mp hqk
        exact append_lt_append _ hjk r s
      rw [pathsFrom_succ fuel h hp ho]
      cases hpast : pr.past? n with
      | none =>
        rw [Option.elim_none, List.append_nil]
        split <;> simp
      | some pr' =>
        refine List.pairwise_append.mpr ⟨by split <;> simp, hbeyond pr', ?_⟩
        intro p hpf q hq
        obtain ⟨rfl, -⟩ := (mem_found_iff h hp ho p).mp hpf
        obtain ⟨j, -, hq⟩ := List.mem_flatMap.mp hq
        obtain ⟨r, rfl, -⟩ := (mem_pathsFrom_iff g tag fuel pr' _ j q).mp hq
        exact lt_append_cons _ j r
    · rw [hnil]
      exact List.Pairwise.nil

lemma TaggedPath.length_le {start : Nat} {p : List Nat} (t : TaggedPath g start tag p) :
    p.length ≤ g.nodes.length := by
  have hsub : p ⊆ List.range g.nodes.length := by
    intro k hk
    obtain ⟨m, hm, -⟩ := t.isOpen k hk
    exact List.mem_range.mpr (List.getElem?_eq_some_iff.mp hm).1
  simpa using t.simple.length_le_of_subset hsub

/-- The bound on the search cuts nothing off: it may be any number from that of the nodes on. -/
lemma mem_pathsFrom_start_iff (g : Graph) (start : Nat) (tag : String) {fuel : Nat}
    (hf : g.nodes.length ≤ fuel) (p : List Nat) :
    p ∈ g.pathsFrom tag fuel ⟨g.hasTag start labeledTrigger, false, false⟩ [] start ↔
      TaggedPath g start tag p := by
  rw [mem_pathsFrom_iff]
  constructor
  · rintro ⟨rest, rfl, -, hl⟩
    exact (taggedPath_iff_remainder g start tag _).mpr
      ⟨rfl, (leads_iff_remainder _ (by simp)).mp hl⟩
  · intro t
    obtain ⟨hs, r⟩ := (taggedPath_iff_remainder g start tag p).mp t
    obtain ⟨rest, rfl⟩ := List.head?_eq_some_iff.mp hs
    have hlen := t.length_le
    exact ⟨rest, rfl, by simp at hlen; omega, (leads_iff_remainder _ (by simp)).mpr r⟩

lemma mem_paths_iff {i : Nat} {tag : String} {p : List Nat} :
    p ∈ g.paths i tag ↔ TaggedPath g i tag p :=
  mem_pathsFrom_start_iff g i tag le_rfl p

lemma eq_of_pairwise_lt {xs ys : List (List Nat)} (hx : xs.Pairwise (· < ·))
    (hy : ys.Pairwise (· < ·)) (h : ∀ p, p ∈ xs ↔ p ∈ ys) : xs = ys := by
  have hperm : xs.Perm ys :=
    (List.perm_ext_iff_of_nodup (hx.imp ne_of_lt) (hy.imp ne_of_lt)).mpr h
  exact hperm.eq_of_pairwise (fun _ _ _ _ hab hba => absurd hba (lt_asymm hab)) hx hy

/-- The search finds exactly the tagged paths, each once and in lexicographic order, and it comes
to its end without the bound that its definition carries. -/
theorem paths_exact (g : Graph) (start : Nat) (tag : String) :
    (∀ p, p ∈ g.paths start tag ↔ TaggedPath g start tag p) ∧
      (g.paths start tag).Pairwise (· < ·) ∧ (g.paths start tag).Nodup ∧
      ∀ fuel, g.nodes.length ≤ fuel →
        g.pathsFrom tag fuel ⟨g.hasTag start labeledTrigger, false, false⟩ [] start =
          g.paths start tag := by
  have hmem := mem_pathsFrom_start_iff g start tag le_rfl
  have hsorted := pairwise_lt_pathsFrom g tag g.nodes.length
    ⟨g.hasTag start labeledTrigger, false, false⟩ [] start
  refine ⟨hmem, hsorted, hsorted.imp ne_of_lt, ?_⟩
  intro fuel hf
  apply eq_of_pairwise_lt (pairwise_lt_pathsFrom g tag fuel _ [] start) hsorted
  exact fun p => (mem_pathsFrom_start_iff g start tag hf p).trans (hmem p).symm

end WorkflowAudit.Graph
