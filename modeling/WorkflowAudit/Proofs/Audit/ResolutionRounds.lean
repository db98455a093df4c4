import WorkflowAudit.Proofs.Audit.AttackPaths
import WorkflowAudit.Proofs.Graph.Operations
import WorkflowAudit.Proofs.Graph.Reachability

/-! What the rounds of a resolution leave unread. A round reads all nodes that it finds, whether or
not anything is known of them, so that what is unread behind the last one was out of reach before
it. -/

namespace WorkflowAudit

namespace Graph

variable {g g' : Graph} {n : Node} {i : Nat}

/-- A node is there and has been read. -/
def IsRead (g : Graph) (i : Nat) : Prop := ∃ n, g.nodes[i]? = some n ∧ n.isInitialized = true

lemma IsRead.of_grows (h : g.IsRead i) (hg : g.Grows g') : g'.IsRead i := by
  obtain ⟨n, hn, hread⟩ := h
  exact ⟨n, hg.getElem? hn hread, hread⟩

lemma not_isRead (hi : g.nodes[i]? = some n) (hn : n.isInitialized = false) : ¬ g.IsRead i := by
  rintro ⟨m, hm, hread⟩
  obtain rfl := Option.some.inj (hm.symm.trans hi)
  exact absurd (hn.symm.trans hread) (by simp)

lemma isRead_markInitialized (hi : i < g.nodes.length) : (g.markInitialized i).IsRead i := by
  refine ⟨g.nodes[i].asInitialized, by simp [markInitialized, hi], ?_⟩
  cases g.nodes[i] <;> rfl

lemma Grows.length_le (h : g.Grows g') : g.nodes.length ≤ g'.nodes.length := by
  by_contra hlt
  obtain ⟨n, hn, -⟩ := h.nodes _ _ (List.getElem?_eq_getElem (Nat.lt_of_not_le hlt))
  exact absurd (List.getElem?_eq_some_iff.mp hn).1 (lt_irrefl _)

lemma mem_tags_of_unread (h : n.isInitialized = false) : Node.uninitializedTag ∈ n.tags := by
  simp [Node.tags, Text.mem_ascending, h]

end Graph

namespace Audit

open Source (Knowledge)
open WorkflowAudit.Graph (mem_tagged_iff mem_reachable_of_leadsTo)

variable {k : Knowledge} {t : Classification.Tables} {g : Graph} {entries : List Nat} {i m n : Nat}

lemma mem_pending (h : g.LeadsTo entries i) (hunread : ¬ g.IsRead i) : i ∈ pending g entries := by
  obtain ⟨n, hn⟩ : ∃ n, g.nodes[i]? = some n := ⟨_, List.getElem?_eq_getElem h.lt⟩
  have htag : g.hasTag i Graph.Node.uninitializedTag = true := by
    rw [Graph.hasTag, hn, Option.any_some, List.contains_iff_mem]
    exact Graph.mem_tags_of_unread (Bool.eq_false_iff.mpr fun hread => hunread ⟨n, hn, hread⟩)
  refine List.mem_filter.mpr ⟨mem_tagged_iff.mpr ⟨_, List.mem_singleton.mpr rfl, htag⟩, ?_⟩
  exact List.contains_iff_mem.mpr (mem_reachable_of_leadsTo h)

lemma isRead_resolveNode (hi : i < g.nodes.length) : (resolveNode k t g i).IsRead i :=
  Graph.isRead_markInitialized (lt_of_lt_of_le hi (grows_addReference k t i g).length_le)

lemma isRead_foldl_resolveNode {is : List Nat} (hi : i ∈ is) (hlt : i < g.nodes.length) :
    (is.foldl (resolveNode k t) g).IsRead i := by
  obtain ⟨before, after, rfl⟩ := List.append_of_mem hi
  rw [List.foldl_append, List.foldl_cons]
  -- The node keeps its number until its turn comes, and what has been read stays read.
  have hbefore := (grows_foldl_resolveNode k t before g).length_le
  exact (isRead_resolveNode (lt_of_lt_of_le hlt hbefore)).of_grows
    (grows_foldl_resolveNode k t after _)

lemma isRead_resolveRound (h : g.LeadsTo entries i) : (resolveRound k t entries g).IsRead i := by
  by_cases hread : g.IsRead i
  · exact hread.of_grows (grows_foldl_resolveNode k t _ g)
  · exact isRead_foldl_resolveNode (mem_pending h hread) h.lt

lemma resolveRounds_add :
    resolveRounds k t entries (m + n) g =
      resolveRounds k t entries n (resolveRounds k t entries m g) := by
  induction m generalizing g with
  | zero => rw [Nat.zero_add, resolveRounds]
  | succ m ih => rw [Nat.succ_add, resolveRounds, ih, resolveRounds]

lemma resolveRounds_eq_self (h : pending g entries = []) : resolveRounds k t entries n g = g := by
  induction n with
  | zero => rfl
  | succ n ih => rw [resolveRounds, resolveRound, h, List.foldl_nil, ih]

lemma grows_resolve_of_le (hn : n ≤ maxDepth) :
    (resolveRounds k t entries n g).Grows (resolve k t entries g) := by
  obtain ⟨m, hm⟩ := Nat.exists_eq_add_of_le hn
  rw [resolve, hm, resolveRounds_add]
  exact grows_resolveRounds k t entries m _

lemma isRead_resolve (hn : n < maxDepth) (h : (resolveRounds k t entries n g).LeadsTo entries i) :
    (resolve k t entries g).IsRead i := by
  have hround : (resolveRounds k t entries (n + 1) g).IsRead i := by
    rw [resolveRounds_add]
    exact isRead_resolveRound h
  exact hround.of_grows (grows_resolve_of_le hn)

lemma resolve_eq_of_settled (hn : n ≤ maxDepth)
    (h : pending (resolveRounds k t entries n g) entries = []) :
    resolve k t entries g = resolveRounds k t entries n g := by
  obtain ⟨m, hm⟩ := Nat.exists_eq_add_of_le hn
  rw [resolve, hm, resolveRounds_add, resolveRounds_eq_self h]

end Audit

namespace IndexedGraph

open Source (Knowledge)

/-- However references lead to each other: what is within reach at the beginning of one of the five
rounds has been read in the end, and what has been read before is left alone. Either everything then
within reach has been read, and so has all that paths pass, or every round had something to read and
what is unread was out of reach at the beginning of the last one. -/
theorem resolve_reads (os : List Operation) (k : Knowledge) (t : Classification.Tables)
    (entries : List Nat) :
    let x := ofOperations os
    let before (r : Nat) := resolveRounds k t entries r x
    let x' := x.resolve k t entries
    (∀ r < 5, ∀ i, (before r).LeadsTo entries i → x'.IsRead i) ∧
      (∀ r ≤ 5, ∀ (i : Nat) (n : Graph.Node),
        (before r).nodes[i]? = some n → n.isInitialized = true → x'.nodes[i]? = some n) ∧
      ((∀ i, x'.LeadsTo entries i → x'.IsRead i) ∧
          (∀ e ∈ entries, ∀ (tag : String), ∀ p ∈ x'.paths e tag, ∀ i ∈ p, x'.IsRead i) ∨
        (∀ r < 5, (before r).pending entries ≠ []) ∧
          ∀ i, x'.LeadsTo entries i → ¬ x'.IsRead i → ¬ (before 4).LeadsTo entries i) := by
  intro x before x'
  have hx := represents_ofOperations os
  have hbefore : ∀ r, (before r).Represents (Audit.resolveRounds k t entries r _) :=
    fun r => hx.resolveRounds k t entries r
  have hx' : x'.Represents (Audit.resolve k t entries _) := hbefore Audit.maxDepth
  clear_value x' before
  have hread : ∀ r < 5, ∀ i, (before r).LeadsTo entries i → x'.IsRead i := by
    intro r hr i hi
    rw [(hbefore r).graph] at hi
    rw [hx'.graph]
    exact Audit.isRead_resolve hr hi
  refine ⟨hread, fun r hr i n hn hread => ?_, ?_⟩
  · rw [(hbefore r).graph] at hn
    rw [hx'.graph]
    exact (Audit.grows_resolve_of_le hr).getElem? hn hread
  · by_cases hsettled : ∃ r < 5, (before r).pending entries = []
    · obtain ⟨r, hr, hempty⟩ := hsettled
      rw [(hbefore r).pending_eq] at hempty
      have hsame : x'.toGraph = (before r).toGraph := by
        rw [hx'.graph, (hbefore r).graph, Audit.resolve_eq_of_settled hr.le hempty]
      have hall : ∀ i, x'.LeadsTo entries i → x'.IsRead i := by
        intro i hi
        rw [hsame] at hi
        exact hread r hr i hi
      exact .inl ⟨hall, fun e he tag p hp i hi => hall i (Graph.leadsTo_of_mem_paths he hp hi)⟩
    · refine .inr ⟨fun r hr hempty => hsettled ⟨r, hr, hempty⟩, fun i _ hunread hi => ?_⟩
      exact hunread (hread 4 (by decide) i hi)

end IndexedGraph

end WorkflowAudit
