import Mathlib.Data.String.Basic
import WorkflowAudit.Proofs.Audit.AttackPaths
import WorkflowAudit.Proofs.Audit.Scopes

/-! Where taint comes from. A value hands on what other values carry, by the environment, by inputs
and by outputs, but what it hands on stays what a body on the path says of itself: a name that was
asked for on the way is never taken for one of the outsider's. -/

namespace WorkflowAudit

namespace Text

lemma pairwise_insertAscending (s : String) {ss : List String} (h : ss.Pairwise (· < ·)) :
    (insertAscending s ss).Pairwise (· < ·) := by
  induction ss with
  | nil => exact List.pairwise_singleton _ _
  | cons t rest ih =>
    obtain ⟨hfirst, hrest⟩ := List.pairwise_cons.mp h
    rw [insertAscending]
    split
    · exact h
    next hne =>
      split
      · next hlt =>
        refine List.pairwise_cons.mpr ⟨fun a ha => ?_, h⟩
        rcases List.mem_cons.mp ha with rfl | ha
        · exact hlt
        · exact hlt.trans (hfirst a ha)
      · next hnot =>
        refine List.pairwise_cons.mpr ⟨fun a ha => ?_, ih hrest⟩
        rcases (mem_insertAscending a s rest).mp ha with rfl | ha
        · exact lt_of_le_of_ne (not_lt.mp hnot) (Ne.symm hne)
        · exact hfirst a ha

lemma pairwise_ascending (ss : List String) : (ascending ss).Pairwise (· < ·) := by
  induction ss with
  | nil => exact List.Pairwise.nil
  | cons s rest ih => exact pairwise_insertAscending s ih

end Text

namespace Assoc

variable {α : Type} {P : α → Prop} {m : Assoc α} {entries : List (String × α)}

lemma holds_of_get? {key : String} {v : α} (h : ∀ e ∈ m, P e.2) (hv : get? key m = some v) :
    P v := by
  obtain ⟨e, he, rfl⟩ := exists_mem_of_get? hv
  exact h e he

lemma forall_mem_insert {v : α} (h : ∀ e ∈ m, P e.2) (hv : P v) (key : String) :
    ∀ e ∈ insert key v m, P e.2 := by
  induction m with
  | nil => exact List.forall_mem_singleton.mpr hv
  | cons e m ih =>
    obtain ⟨hfirst, hrest⟩ := List.forall_mem_cons.mp h
    rw [insert]
    split
    · exact List.forall_mem_cons.mpr ⟨hv, hrest⟩
    · exact List.forall_mem_cons.mpr ⟨hfirst, ih hrest⟩

lemma forall_mem_foldl_insert (h : ∀ e ∈ m, P e.2) (hentries : ∀ e ∈ entries, P e.2) :
    ∀ e ∈ entries.foldl (fun m e => insert e.1 e.2 m) m, P e.2 :=
  List.foldlRecOn (motive := fun m : Assoc α => ∀ e ∈ m, P e.2) entries _ h
    fun _ h e he => forall_mem_insert h (hentries e he) e.1

lemma forall_mem_ofList (h : ∀ e ∈ entries, P e.2) : ∀ e ∈ ofList entries, P e.2 :=
  forall_mem_foldl_insert (List.forall_mem_nil _) h

end Assoc

namespace Scope

/-- What a body says of the outsider by itself: a context that an outsider may influence and that is
known as it stands, or the whole body when it can't be read and mentions no context. -/
inductive Names (body : String) : String → Prop where
  | context {token : String} : token ∈ Context.tokens body →
      Classification.isStatic token = false →
      (∀ front ∈ ["env.", "inputs.", "needs.", "steps.", "jobs."],
        Text.startsWith front token = false) → Names body token
  | unreadable : Expression.parse? body = none → Context.tokens body = [] → Names body body

/-- A taint in strictly ascending order, with tokens only that some of the bodies name. -/
structure IsRooted (bodies : List String) (t : Taint) : Prop where
  ascending : t.Pairwise (· < ·)
  named : ∀ token ∈ t, ∃ body ∈ bodies, Names body token

/-- Every taint that is known of a name goes back to the bodies. -/
structure HoldsRoots (bodies : List String) (s : Scope) : Prop where
  env : ∀ e ∈ s.env, IsRooted bodies e.2
  stepEnv : ∀ e ∈ s.stepEnv, IsRooted bodies e.2
  inputs : ∀ e ∈ s.inputs, IsRooted bodies e.2
  outputs : ∀ e ∈ s.outputs, IsRooted bodies e.2

variable {s : Scope} {bodies asked : List String} {body token text : String} {x : Slot}
  {slots : List Slot} {t : Taint} {i : Implicated} {m : Move} {ms : List Move}

lemma holdsRoots_empty (bodies : List String) : empty.HoldsRoots bodies where
  env := List.forall_mem_nil _
  stepEnv := List.forall_mem_nil _
  inputs := List.forall_mem_nil _
  outputs := List.forall_mem_nil _

/-! ### What is asked of a scope -/

lemma exists_ask_of_mem_resolveToken (hroot : isRoot token = false)
    (hi : i ∈ s.resolveToken token) : ∃ t, s.ask (slotsOf token) = some t ∧ i.token ∈ t := by
  rw [resolveToken, resolve_eq, hroot, if_neg Bool.false_ne_true] at hi
  rcases hask : s.ask (slotsOf token) with _ | _ | ⟨r, t⟩
  · simp [hask, carried] at hi
  · simp [hask, carried] at hi
  · simp only [hask, carried] at hi
    obtain ⟨r', hr', rfl⟩ := List.mem_map.mp hi
    exact ⟨r :: t, rfl, hr'⟩

namespace HoldsRoots

lemma isRooted_of_at? (h : s.HoldsRoots bodies) (hx : s.at? x = some t) : IsRooted bodies t := by
  cases x with
  | env n => exact Assoc.holds_of_get? h.env hx
  | stepEnv n => exact Assoc.holds_of_get? h.stepEnv hx
  | input n => exact Assoc.holds_of_get? h.inputs hx
  | output n => exact Assoc.holds_of_get? h.outputs hx

lemma isRooted_of_ask (h : s.HoldsRoots bodies) (hask : s.ask slots = some t) :
    IsRooted bodies t := by
  obtain ⟨x, -, hx⟩ := List.exists_of_findSome?_eq_some hask
  exact h.isRooted_of_at? hx

lemma names_of_mem_resolveToken (h : s.HoldsRoots bodies) (htoken : token ∈ Context.tokens body)
    (hi : i ∈ s.resolveToken token) : ∃ b ∈ body :: bodies, Names b i.token := by
  cases hroot : isRoot token with
  | true =>
    rw [resolveToken_of_isRoot s hroot] at hi
    obtain rfl := List.mem_singleton.mp hi
    obtain ⟨hstatic, hfronts⟩ := isRoot_iff.mp hroot
    exact ⟨body, List.mem_cons_self, .context htoken hstatic hfronts⟩
  | false =>
    -- The slot that answers holds roots only, however they came into it.
    obtain ⟨t, hask, hmem⟩ := exists_ask_of_mem_resolveToken hroot hi
    obtain ⟨b, hb, hnames⟩ := (h.isRooted_of_ask hask).named _ hmem
    exact ⟨b, List.mem_cons_of_mem _ hb, hnames⟩

lemma names_of_mem_resolveBody (h : s.HoldsRoots bodies) (hi : i ∈ s.resolveBody body) :
    ∃ b ∈ body :: bodies, Names b i.token := by
  rw [resolveBody] at hi
  split at hi
  · next hunreadable =>
    obtain rfl := List.mem_singleton.mp hi
    obtain ⟨hparse, htokens⟩ := isUnreadable_iff.mp hunreadable
    exact ⟨body, List.mem_cons_self, .unreadable hparse htokens⟩
  · obtain ⟨token, htoken, hi⟩ := List.mem_flatMap.mp hi
    exact h.names_of_mem_resolveToken htoken hi

lemma names_of_mem_implicated (h : s.HoldsRoots bodies) (hi : i ∈ s.implicated asked) :
    ∃ b ∈ asked ++ bodies, Names b i.token := by
  obtain ⟨body, hbody, hi⟩ := mem_implicated_iff.mp hi
  obtain ⟨b, hb, hnames⟩ := h.names_of_mem_resolveBody hi
  refine ⟨b, List.mem_append.mpr ((List.mem_cons.mp hb).imp_left ?_), hnames⟩
  rintro rfl
  exact hbody

/-! ### What a move leaves -/

lemma isRooted_taint (h : s.HoldsRoots bodies) (htext : Context.bodies text ⊆ bodies) :
    IsRooted bodies (s.taint text) where
  ascending := Text.pairwise_ascending _
  named token htoken := by
    rw [taint, Text.mem_ascending] at htoken
    obtain ⟨i, hi, rfl⟩ := List.mem_map.mp htoken
    obtain ⟨body, hbody, hi⟩ := List.mem_flatMap.mp hi
    obtain ⟨b, hb, hnames⟩ := h.names_of_mem_resolveBody hi
    exact ⟨b, List.cons_subset.mpr ⟨htext hbody, List.Subset.refl _⟩ hb, hnames⟩

lemma isRooted_taints (h : s.HoldsRoots bodies) {values : Assoc String}
    (hvalues : ∀ text ∈ values.map Prod.snd, Context.bodies text ⊆ bodies) :
    ∀ e ∈ s.taints values, IsRooted bodies e.2 := by
  apply Assoc.forall_mem_ofList
  intro e he
  obtain ⟨e', he', rfl⟩ := List.mem_map.mp he
  exact h.isRooted_taint (hvalues _ (List.mem_map_of_mem he'))

end HoldsRoots

end Scope

def Move.texts : Move → List String
  | .bindEnv _ value | .bindOutput _ value => [value]
  | .enterStep values | .enterCall values | .enterAction values => values.map Prod.snd

namespace Scope.HoldsRoots

variable {s : Scope} {bodies : List String} {m : Move} {ms : List Move}

lemma perform (h : s.HoldsRoots bodies) (hm : ∀ text ∈ m.texts, Context.bodies text ⊆ bodies) :
    (s.perform m).HoldsRoots bodies := by
  cases m with
  | bindEnv name value =>
    have hvalue := h.isRooted_taint (hm value (List.mem_singleton_self value))
    exact { h with env := Assoc.forall_mem_insert h.env hvalue name }
  | bindOutput token value =>
    have hvalue := h.isRooted_taint (hm value (List.mem_singleton_self value))
    exact { h with outputs := Assoc.forall_mem_insert h.outputs hvalue token }
  | enterStep env => exact { h with stepEnv := h.isRooted_taints hm }
  | enterCall inputs =>
    exact { h with
      inputs := h.isRooted_taints hm
      env := List.forall_mem_nil _ }
  | enterAction inputs =>
    exact { h with
      inputs := h.isRooted_taints hm
      env := Assoc.forall_mem_foldl_insert h.env h.stepEnv
      stepEnv := List.forall_mem_nil _ }

lemma performAll (h : s.HoldsRoots bodies)
    (hms : ∀ m ∈ ms, ∀ text ∈ m.texts, Context.bodies text ⊆ bodies) :
    (s.performAll ms).HoldsRoots bodies :=
  List.foldlRecOn (motive := HoldsRoots bodies) ms _ h fun _ h m hm => h.perform (hms m hm)

end Scope.HoldsRoots

/-- The texts that a node gives to names. -/
def Graph.Node.values : Graph.Node → List String
  | .workflow w => w.env.map Prod.snd
  | .job j => (j.env ++ j.inputs ++ j.outputs).map Prod.snd
  | .step s => (s.env ++ s.inputs).map Prod.snd
  | .repo _ | .action _ => []

namespace Walk

open WorkflowAudit.Graph (Node)
open Source (Knowledge)
open Audit (nothingKnown)

/-- The bodies in the texts of a path. -/
def bodiesOn (g : Graph) (path : List Nat) : List String :=
  (path.filterMap (g.nodes[·]?)).flatMap fun n => n.values.flatMap Context.bodies

/-- A scope that a walk along a path goes through, between two visits or within one, between two of
the moves of the visit. -/
inductive Passes (k : Knowledge) (g : Graph) (path : List Nat) : Scope → Prop where
  | between {ps : List Place} : ps <+: places path →
      Passes k g path (ps.foldl (enter k g) start).scope
  | within {ps : List Place} {p : Place} {ms : List Move} : ps ++ [p] <+: places path →
      ms <+: movesAt g p.previous p.current →
      Passes k g path ((ps.foldl (enter k g) start).scope.performAll ms)

variable {k : Knowledge} {g : Graph} {path : List Nat} {previous : Option Nat} {p : Place}
  {ps : List Place} {n : Node} {m : Move} {s : Scope} {text : String} {i : Nat}

lemma mem_of_mem_placesFrom (h : p ∈ placesFrom previous path) :
    p.current ∈ path ∧ ∀ i ∈ p.previous, i ∈ previous ∨ i ∈ path := by
  induction path generalizing previous with
  | nil => cases h
  | cons j rest ih =>
    rcases List.mem_cons.mp h with rfl | h
    · exact ⟨List.mem_cons_self, fun i hi => .inl hi⟩
    · obtain ⟨hcurrent, hprevious⟩ := ih h
      refine ⟨List.mem_cons_of_mem _ hcurrent, fun i hi => .inr ?_⟩
      rcases hprevious i hi with hj | hi
      · exact Option.mem_some.mp hj ▸ List.mem_cons_self
      · exact List.mem_cons_of_mem _ hi

lemma mem_values_of_mem_bindAll {env : Assoc String} (hm : m ∈ bindAll env)
    (htext : text ∈ m.texts) : text ∈ env.map Prod.snd := by
  obtain ⟨e, he, rfl⟩ := List.mem_map.mp hm
  obtain rfl := List.mem_singleton.mp htext
  exact List.mem_map_of_mem he

/-- A visit takes its texts from the node itself and from the one that calls it. -/
lemma mem_values_of_mem_movesInto {caller : Option Node} (hm : m ∈ movesInto caller n)
    (htext : text ∈ m.texts) : text ∈ n.values ∨ ∃ c ∈ caller, text ∈ c.values := by
  cases n with
  | repo _ => cases hm
  | workflow w =>
    rcases List.mem_append.mp hm with hm | hm
    · match caller with
      | some (.job j) =>
        obtain rfl := List.mem_singleton.mp hm
        refine .inr ⟨_, rfl, ?_⟩
        rw [Graph.Node.values, List.map_append, List.map_append]
        exact List.mem_append_left _ (List.mem_append_right _ htext)
      | none | some (.repo _) | some (.workflow _) | some (.step _) | some (.action _) => cases hm
    · exact .inl (mem_values_of_mem_bindAll hm htext)
  | job j =>
    rw [Graph.Node.values, List.map_append, List.map_append]
    rcases List.mem_append.mp hm with hm | hm
    · have henv := mem_values_of_mem_bindAll hm htext
      exact .inl (List.mem_append_left _ (List.mem_append_left _ henv))
    · obtain ⟨e, he, rfl⟩ := List.mem_map.mp hm
      obtain rfl := List.mem_singleton.mp htext
      exact .inl (List.mem_append_right _ (List.mem_map_of_mem he))
  | step s =>
    obtain rfl := List.mem_singleton.mp hm
    rw [Graph.Node.values, List.map_append]
    exact .inl (List.mem_append_left _ htext)
  | action a =>
    match caller with
    | some (.step s) =>
      obtain rfl := List.mem_singleton.mp hm
      refine .inr ⟨_, rfl, ?_⟩
      rw [Graph.Node.values, List.map_append]
      exact List.mem_append_right _ htext
    | none | some (.repo _) | some (.workflow _) | some (.job _) | some (.action _) => cases hm

lemma mem_values_of_mem_movesAt (hp : p ∈ places path)
    (hm : m ∈ movesAt g p.previous p.current) (htext : text ∈ m.texts) :
    ∃ i ∈ path, ∃ n, g.nodes[i]? = some n ∧ text ∈ n.values := by
  obtain ⟨hcurrent, hprevious⟩ := mem_of_mem_placesFrom hp
  rw [movesAt] at hm
  cases hn : g.nodes[p.current]? with
  | none => simp [hn] at hm
  | some n =>
    rw [hn, Option.map_some, Option.getD_some] at hm
    rcases mem_values_of_mem_movesInto hm htext with hown | ⟨c, hc, htext⟩
    · exact ⟨p.current, hcurrent, n, hn, hown⟩
    · obtain ⟨i, hi, hci⟩ := Option.bind_eq_some_iff.mp hc
      exact ⟨i, (hprevious i hi).resolve_left (by simp), c, hci, htext⟩

lemma bodies_subset_bodiesOn (hp : p ∈ places path)
    (hm : m ∈ movesAt g p.previous p.current) (htext : text ∈ m.texts) :
    Context.bodies text ⊆ bodiesOn g path := by
  intro body hbody
  obtain ⟨i, hi, n, hn, hvalue⟩ := mem_values_of_mem_movesAt hp hm htext
  have hmem : n ∈ path.filterMap (g.nodes[·]?) := List.mem_filterMap.mpr ⟨i, hi, hn⟩
  exact List.mem_flatMap.mpr ⟨n, hmem, List.mem_flatMap.mpr ⟨text, hvalue, hbody⟩⟩

lemma holdsRoots_foldl_enter (hps : ps ⊆ places path) {w : Walk}
    (h : w.scope.HoldsRoots (bodiesOn g path)) :
    (ps.foldl (enter k g) w).scope.HoldsRoots (bodiesOn g path) := by
  refine List.foldlRecOn (motive := fun w : Walk => w.scope.HoldsRoots (bodiesOn g path)) ps _ h
    fun w hw p hp => ?_
  rw [scope_enter]
  exact hw.performAll fun m hm text htext => bodies_subset_bodiesOn (hps hp) hm htext

lemma Passes.holdsRoots (h : Passes k g path s) : s.HoldsRoots (bodiesOn g path) := by
  have hstart : start.scope.HoldsRoots (bodiesOn g path) := Scope.holdsRoots_empty _
  cases h with
  | between hps => exact holdsRoots_foldl_enter hps.subset hstart
  | within hps hms =>
    obtain ⟨hbefore, hp⟩ := List.append_subset.mp hps.subset
    refine (holdsRoots_foldl_enter hbefore hstart).performAll fun m hm text htext => ?_
    exact bodies_subset_bodiesOn (hp (List.mem_singleton_self _)) (hms.subset hm) htext

/-- Whatever a walk goes through on its way, it takes for the outsider's only what a body on the
path, or one of those that it is asked about, names by itself. -/
theorem taint_names_roots (h : Passes k g path s) :
    s.HoldsRoots (bodiesOn g path) ∧
      ∀ asked : List String, ∀ i ∈ s.implicated asked,
        ∃ body ∈ asked ++ bodiesOn g path, Scope.Names body i.token :=
  ⟨h.holdsRoots, fun _ _ hi => h.holdsRoots.names_of_mem_implicated hi⟩

/-- The name of a branch goes from the environment of a workflow by an input into the environment of
the workflow that is called, and from there into an output. -/
def relay : Graph where
  nodes :=
    [.workflow
      { repo := "o/r", ref := "HEAD", path := "ci.yml", displayName := none, initialized := true
        triggers := ["fork"]
        env := [("BRANCH", "$\x7b\x7b github.head_ref \x7d\x7d")] },
    .job
      { name := "o/r:HEAD:ci.yml:call", repo := "o/r", job := "call", uses := some "./called.yml"
        env := [], inputs := [("branch", "$\x7b\x7b env.BRANCH \x7d\x7d")], outputs := []
        environment := none, permissions := none, condition := .always, selfHosted := false },
    .workflow
      { repo := "o/r", ref := "HEAD", path := "called.yml", displayName := none, initialized := true
        triggers := []
        env := [("NAME", "on $\x7b\x7b inputs.branch \x7d\x7d")] },
    .job
      { name := "o/r:HEAD:called.yml:tell", repo := "o/r", job := "tell", uses := none
        env := [], inputs := [], outputs := [("name", "$\x7b\x7b env.NAME \x7d\x7d")]
        environment := none, permissions := none, condition := .always, selfHosted := false }]
  edges := [⟨0, 1, .contains⟩, ⟨1, 2, .uses⟩, ⟨2, 3, .contains⟩]

theorem relayed_name_is_root :
    ∃ s, Passes nothingKnown relay [0, 1, 2, 3] s ∧
      s.implicated ["needs.tell.outputs.name"] =
        [⟨"github.head_ref", .output, some "needs.tell.outputs.name"⟩] ∧
      s.HoldsRoots (bodiesOn relay [0, 1, 2, 3]) ∧
      ∃ body ∈ ["needs.tell.outputs.name"] ++ bodiesOn relay [0, 1, 2, 3],
        Scope.Names body "github.head_ref" := by
  let s := ((places [0, 1, 2, 3]).foldl (enter nothingKnown relay) start).scope
  have hpasses : Passes nothingKnown relay [0, 1, 2, 3] s := .between List.prefix_rfl
  have himplicated : s.implicated ["needs.tell.outputs.name"] =
      [⟨"github.head_ref", .output, some "needs.tell.outputs.name"⟩] := by
    decide +kernel
  obtain ⟨hroots, hnames⟩ := taint_names_roots hpasses
  exact ⟨s, hpasses, himplicated, hroots, hnames _ _ (himplicated ▸ List.mem_singleton_self _)⟩

end Walk

end WorkflowAudit
