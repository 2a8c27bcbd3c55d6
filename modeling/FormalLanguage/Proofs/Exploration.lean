import FormalLanguage.Exploration
import Mathlib.Data.List.Shortlex
import Mathlib.Logic.Relation

/-! What an exploration finds.

A `Route` is a chain of edges from a start, said without exploring. With room for
every node that an edge can lead to, an exploration visits exactly the nodes that
routes lead to (`mem_reached`, `mem_closure`), and where the edges of a node come
in increasing order of their labels, the path it gives to the nearest goal is the
first of all routes to a goal, shorter ones before longer ones and those of one
length in the order of their labels (`pathTo?_first`).

Both follow from one invariant, `Frontier`, of what is known between two levels. -/
namespace FormalLanguage.Exploration
variable {ν : Type u} {σ : Type v}

/-- Reading `path` along edges leads from one of `starts` to a node. -/
inductive Route (edges : ν → List (σ × ν)) (starts : List ν) : List σ → ν → Prop where
  | start {n : ν} (h : n ∈ starts) : Route edges starts [] n
  | step {path : List σ} {n m : ν} {x : σ} (h : Route edges starts path n)
      (hx : (x, m) ∈ edges n) : Route edges starts (path ++ [x]) m

theorem mem_successors {edges : ν → List (σ × ν)} {u v : Visit ν σ} :
    v ∈ u.successors edges ↔ ∃ x m, (x, m) ∈ edges u.node ∧ v = ⟨m, u.path ++ [x]⟩ := by
  simp only [Visit.successors, List.mem_map, Prod.exists]
  refine ⟨fun h => ?_, fun h => ?_⟩
  · obtain ⟨x, m, hx, rfl⟩ := h
    exact ⟨x, m, hx, rfl⟩
  · obtain ⟨x, m, hx, rfl⟩ := h
    exact ⟨x, m, hx, rfl⟩

/-! ### Orders of paths -/

/-- An order of paths that an exploration keeps to. `shorter` and `extend` hold of every order
that compares lengths first, `edges` asks that the edges of a node come in order. -/
structure PathOrder (edges : ν → List (σ × ν)) (R : List σ → List σ → Prop) : Prop where
  shorter : ∀ {p q : List σ}, p.length < q.length → R p q
  extend : ∀ {p q : List σ} (x y : σ), R p q → R (p ++ [x]) (q ++ [y])
  trans : ∀ {p q s : List σ}, R p q → R q s → R p s
  edges : ∀ (n : ν) (p : List σ), (edges n).Pairwise fun e f => R (p ++ [e.1]) (p ++ [f.1])

/-- Without an order of paths every order of edges is as good as any other. -/
theorem pathOrder_true (edges : ν → List (σ × ν)) : PathOrder edges fun _ _ => True :=
  ⟨fun _ => trivial, fun _ _ _ => trivial, fun _ _ => trivial, fun _ _ =>
    List.pairwise_of_forall fun _ _ => trivial⟩

theorem lex_trans {r : σ → σ → Prop} (hr : ∀ x y z, r x y → r y z → r x z) {p q s : List σ}
    (hpq : List.Lex r p q) (hqs : List.Lex r q s) : List.Lex r p s := by
  induction hpq generalizing s with
  | nil => cases hqs <;> exact .nil
  | rel hxy =>
    cases hqs with
    | rel hyz => exact .rel (hr _ _ _ hxy hyz)
    | cons _ => exact .rel hxy
  | cons _ ih =>
    cases hqs with
    | rel hyz => exact .rel hyz
    | cons hqs => exact .cons (ih hqs)

theorem lex_append {r : σ → σ → Prop} {p q : List σ} (h : List.Lex r p q)
    (hlength : p.length = q.length) (s t : List σ) : List.Lex r (p ++ s) (q ++ t) := by
  induction h with
  | nil => exact absurd hlength (by simp)
  | rel hxy => exact .rel hxy
  | cons _ ih => exact .cons (ih (by simpa using hlength))

theorem pathOrder_shortlex {edges : ν → List (σ × ν)} {r : σ → σ → Prop}
    (hr : ∀ x y z, r x y → r y z → r x z)
    (hedges : ∀ n, (edges n).Pairwise fun e f => r e.1 f.1) :
    PathOrder edges (List.Shortlex r) where
  shorter := .of_length_lt
  extend {p q} x y h := by
    rcases List.shortlex_def.mp h with hlt | ⟨heq, hlex⟩
    · exact .of_length_lt (by simpa using hlt)
    · exact .of_lex (by simpa using heq) (lex_append hlex heq [x] [y])
  trans {p q s} hpq hqs := by
    rw [List.shortlex_def] at hpq hqs ⊢
    rcases hpq with hpq | ⟨hpq, hlex⟩ <;> rcases hqs with hqs | ⟨hqs, hlex'⟩
    · exact .inl (hpq.trans hqs)
    · exact .inl (hqs ▸ hpq)
    · exact .inl (hpq ▸ hqs)
    · exact .inr ⟨hpq.trans hqs, lex_trans hr hlex hlex'⟩
  edges n p := (hedges n).imp fun {e f} h =>
    (List.shortlex_singleton_iff e.1 f.1).mpr h |>.append_left p

/-! ### The invariant between two levels -/

/-- What is known between two levels: the edges of the visits in `earlier` have been followed,
those of the visits in `level`, which all took `depth` edges, have not. -/
structure Frontier (edges : ν → List (σ × ν)) (R : List σ → List σ → Prop) (depth : Nat)
    (known : List ν) (earlier level : List (Visit ν σ)) : Prop where
  known_iff : ∀ n, n ∈ known ↔ ∃ v ∈ earlier ++ level, v.node = n
  ordered : (earlier ++ level).Pairwise fun u v => R u.path v.path
  length_earlier : ∀ v ∈ earlier, v.path.length ≤ depth
  length_level : ∀ v ∈ level, v.path.length = depth
  followed : ∀ u ∈ earlier, ∀ x m, (x, m) ∈ edges u.node →
    ∃ v ∈ earlier ++ level, v.node = m ∧ (v.path = u.path ++ [x] ∨ R v.path (u.path ++ [x]))

variable {edges : ν → List (σ × ν)} {R : List σ → List σ → Prop} {depth : Nat} {known : List ν}
  {earlier level : List (Visit ν σ)}

theorem Frontier.length_le (h : Frontier edges R depth known earlier level) {v : Visit ν σ}
    (hv : v ∈ earlier ++ level) : v.path.length ≤ depth := by
  rcases List.mem_append.mp hv with hv | hv
  · exact h.length_earlier v hv
  · exact (h.length_level v hv).le

theorem Frontier.length_successor (h : Frontier edges R depth known earlier level)
    {v : Visit ν σ} (hv : v ∈ level.flatMap (·.successors edges)) :
    v.path.length = depth + 1 := by
  obtain ⟨u, hu, huv⟩ := List.mem_flatMap.mp hv
  obtain ⟨x, m, _, rfl⟩ := mem_successors.mp huv
  rw [List.length_append, h.length_level u hu]
  rfl

/-- The successors of a level come in order, before those to known nodes are dropped. -/
theorem Frontier.successors_ordered (hR : PathOrder edges R)
    (h : Frontier edges R depth known earlier level) :
    (level.flatMap (·.successors edges)).Pairwise fun u v => R u.path v.path := by
  have hlevel : level.Pairwise fun u v => R u.path v.path :=
    (List.pairwise_append.mp h.ordered).2.1
  rw [List.pairwise_flatMap]
  refine ⟨fun u _ => ?_, hlevel.imp fun {u v} huv => ?_⟩
  · rw [Visit.successors, List.pairwise_map]
    exact hR.edges u.node u.path
  · intro u' hu' v' hv'
    obtain ⟨x, m, _, rfl⟩ := mem_successors.mp hu'
    obtain ⟨y, n, _, rfl⟩ := mem_successors.mp hv'
    exact hR.extend x y huv

theorem node_mem_of_mem_flatMap {space : List ν} (hspace : ∀ n, ∀ e ∈ edges n, e.2 ∈ space)
    {v : Visit ν σ} (hv : v ∈ level.flatMap (·.successors edges)) : v.node ∈ space := by
  obtain ⟨u, _, huv⟩ := List.mem_flatMap.mp hv
  obtain ⟨x, m, hx, rfl⟩ := mem_successors.mp huv
  exact hspace u.node (x, m) hx

/-! ### New nodes -/

variable [DecidableEq ν]

theorem fresh_sublist (known : List ν) (l : List (Visit ν σ)) : (fresh known l).Sublist l := by
  induction l generalizing known with
  | nil => exact List.Sublist.refl _
  | cons v rest ih =>
    unfold fresh
    split
    · exact (ih known).cons v
    · exact (ih (v.node :: known)).cons_cons v

theorem node_notMem_of_mem_fresh {known : List ν} {l : List (Visit ν σ)} {v : Visit ν σ}
    (h : v ∈ fresh known l) : v.node ∉ known := by
  induction l generalizing known with
  | nil => exact absurd h List.not_mem_nil
  | cons u rest ih =>
    unfold fresh at h
    split at h
    · exact ih h
    · next hu =>
      rcases List.mem_cons.mp h with rfl | h
      · exact hu
      · exact fun hv => ih h (List.mem_cons_of_mem _ hv)

/-- A node that was not known is visited by the first of the visits to it. -/
theorem exists_mem_fresh {R : Visit ν σ → Visit ν σ → Prop} {known : List ν}
    {l : List (Visit ν σ)} {v : Visit ν σ} (hl : l.Pairwise R) (hv : v ∈ l)
    (hn : v.node ∉ known) : ∃ u ∈ fresh known l, u.node = v.node ∧ (u = v ∨ R u v) := by
  induction l generalizing known with
  | nil => exact absurd hv List.not_mem_nil
  | cons w rest ih =>
    obtain ⟨hw, hrest⟩ := List.pairwise_cons.mp hl
    unfold fresh
    rcases List.mem_cons.mp hv with rfl | hv
    · rw [if_neg hn]
      exact ⟨v, List.mem_cons_self .., rfl, .inl rfl⟩
    · split
      · exact ih hrest hv hn
      · by_cases hwv : v.node = w.node
        · exact ⟨w, List.mem_cons_self .., hwv.symm, .inr (hw v hv)⟩
        · have hknown : v.node ∉ w.node :: known := by simp [hwv, hn]
          obtain ⟨u, hu, huv⟩ := ih hrest hv hknown
          exact ⟨u, List.mem_cons_of_mem _ hu, huv⟩

theorem nodup_fresh (known : List ν) (l : List (Visit ν σ)) :
    ((fresh known l).map (·.node)).Nodup := by
  induction l generalizing known with
  | nil => exact List.nodup_nil
  | cons v rest ih =>
    unfold fresh
    split
    · exact ih known
    · rw [List.map_cons, List.nodup_cons]
      refine ⟨fun hv => ?_, ih _⟩
      obtain ⟨u, hu, huv⟩ := List.mem_map.mp hv
      exact node_notMem_of_mem_fresh hu (huv ▸ List.mem_cons_self ..)

/-! ### Soundness -/

theorem route_of_mem_visitsFrom {edges : ν → List (σ × ν)} {goal : ν → Bool} {starts : List ν}
    {bound : Nat} {known : List ν} {level : List (Visit ν σ)} {v : Visit ν σ}
    (hlevel : ∀ u ∈ level, Route edges starts u.path u.node)
    (hv : v ∈ visitsFrom edges goal bound known level) : Route edges starts v.path v.node := by
  induction bound generalizing known level with
  | zero => exact hlevel v hv
  | succ bound ih =>
    unfold visitsFrom at hv
    split at hv
    · exact hlevel v hv
    · rcases List.mem_append.mp hv with hv | hv
      · exact hlevel v hv
      · refine ih (fun u hu => ?_) hv
        obtain ⟨w, hw, huw⟩ := List.mem_flatMap.mp ((fresh_sublist _ _).subset hu)
        obtain ⟨x, m, hx, rfl⟩ := mem_successors.mp huw
        exact (hlevel w hw).step hx

theorem route_of_mem_visitsUntil {edges : ν → List (σ × ν)} {goal : ν → Bool} {starts : List ν}
    {bound : Nat} {v : Visit ν σ} (hv : v ∈ visitsUntil edges goal bound starts) :
    Route edges starts v.path v.node := by
  refine route_of_mem_visitsFrom (fun u hu => ?_) hv
  obtain ⟨n, hn, rfl⟩ := List.mem_map.mp ((fresh_sublist _ _).subset hu)
  exact .start hn

/-- No node is visited twice, since what is visited after a level is new to it. -/
theorem visitsFrom_new {goal : ν → Bool} {bound : Nat} (hlevel : (level.map (·.node)).Nodup)
    (hknown : ∀ v ∈ level, v.node ∈ known) :
    ((visitsFrom edges goal bound known level).map (·.node)).Nodup ∧
      ∀ v ∈ visitsFrom edges goal bound known level, v ∈ level ∨ v.node ∉ known := by
  induction bound generalizing known level with
  | zero => exact ⟨hlevel, fun v hv => .inl hv⟩
  | succ bound ih =>
    unfold visitsFrom
    split
    · exact ⟨hlevel, fun v hv => .inl hv⟩
    · obtain ⟨hnodup, hafter⟩ :=
        ih (nodup_fresh known _) fun v hv => List.mem_append_left known (List.mem_map_of_mem hv)
      have hnew : ∀ v ∈ visitsFrom edges goal bound _ _, v.node ∉ known := fun v hv => by
        rcases hafter v hv with hv | hv
        · exact node_notMem_of_mem_fresh hv
        · exact fun h => hv (List.mem_append_right _ h)
      refine ⟨?_, fun v hv => (List.mem_append.mp hv).imp_right (hnew v)⟩
      rw [List.map_append, List.nodup_append]
      refine ⟨hlevel, hnodup, fun n hn m hm hnm => ?_⟩
      obtain ⟨u, hu, rfl⟩ := List.mem_map.mp hn
      obtain ⟨v, hv, rfl⟩ := List.mem_map.mp hm
      exact hnew v hv (hnm ▸ hknown u hu)

/-- An edge out of the level gives a candidate for the next one. Its node is known already, or
the first of the candidates for it is new. -/
theorem Frontier.followed_level (hR : PathOrder edges R)
    (h : Frontier edges R depth known earlier level) {u : Visit ν σ} {x : σ} {m : ν}
    (hu : u ∈ level) (hx : (x, m) ∈ edges u.node) :
    ∃ v ∈ (earlier ++ level) ++ fresh known (level.flatMap (·.successors edges)),
      v.node = m ∧ (v.path = u.path ++ [x] ∨ R v.path (u.path ++ [x])) := by
  by_cases hm : m ∈ known
  · obtain ⟨v, hv, hvm⟩ := (h.known_iff m).mp hm
    refine ⟨v, List.mem_append_left _ hv, hvm, .inr (hR.shorter ?_)⟩
    rw [List.length_append, h.length_level u hu]
    exact Nat.lt_succ_of_le (h.length_le hv)
  · have hcandidate : ⟨m, u.path ++ [x]⟩ ∈ level.flatMap (·.successors edges) :=
      List.mem_flatMap.mpr ⟨u, hu, mem_successors.mpr ⟨x, m, hx, rfl⟩⟩
    obtain ⟨v, hv, hvm, hvu⟩ := exists_mem_fresh (h.successors_ordered hR) hcandidate hm
    refine ⟨v, List.mem_append_right _ hv, hvm, hvu.imp_left fun he => ?_⟩
    rw [he]

/-- The next level is a frontier again. -/
theorem Frontier.next (hR : PathOrder edges R) (h : Frontier edges R depth known earlier level) :
    let level' := fresh known (level.flatMap (·.successors edges))
    Frontier edges R (depth + 1) (level'.map (·.node) ++ known) (earlier ++ level) level' := by
  intro level'
  have hsub : level'.Sublist (level.flatMap (·.successors edges)) := fresh_sublist _ _
  have hlength : ∀ v ∈ level', v.path.length = depth + 1 := fun v hv =>
    h.length_successor (hsub.subset hv)
  refine ⟨fun n => ?_, ?_, fun v hv => (h.length_le hv).trans (Nat.le_succ depth), hlength, ?_⟩
  · rw [List.mem_append, List.mem_map, h.known_iff n]
    refine ⟨fun hn => ?_, fun hn => ?_⟩
    · rcases hn with ⟨v, hv, hn⟩ | ⟨v, hv, hn⟩
      · exact ⟨v, List.mem_append_right _ hv, hn⟩
      · exact ⟨v, List.mem_append_left _ hv, hn⟩
    · obtain ⟨v, hv, hn⟩ := hn
      rcases List.mem_append.mp hv with hv | hv
      · exact .inr ⟨v, hv, hn⟩
      · exact .inl ⟨v, hv, hn⟩
  · refine List.pairwise_append.mpr ⟨h.ordered, (h.successors_ordered hR).sublist hsub, ?_⟩
    intro u hu v hv
    apply hR.shorter
    rw [hlength v hv]
    exact Nat.lt_succ_of_le (h.length_le hu)
  · intro u hu x m hx
    rcases List.mem_append.mp hu with hu | hu
    · obtain ⟨v, hv, hvm⟩ := h.followed u hu x m hx
      exact ⟨v, List.mem_append_left _ hv, hvm⟩
    · exact h.followed_level hR hu hx

/-! ### Enough levels -/

/-- The nodes of `space` that are still to be found. -/
def unknown (space known : List ν) : List ν := space.filter (· ∉ known)

theorem length_unknown_lt {space known known' : List ν} {n : ν} (hsub : ∀ m ∈ known, m ∈ known')
    (hspace : n ∈ space) (hn : n ∉ known) (hn' : n ∈ known') :
    (unknown space known').length < (unknown space known).length := by
  have hsublist : (unknown space known').Sublist (unknown space known) := by
    refine List.monotone_filter_right space fun m hm => ?_
    simp only [decide_eq_true_eq] at hm ⊢
    exact fun h => hm (hsub m h)
  refine Nat.lt_of_le_of_ne hsublist.length_le fun heq => ?_
  have hmem : n ∈ unknown space known := by simp [unknown, hspace, hn]
  rw [← hsublist.eq_of_length heq] at hmem
  simp [unknown, hn'] at hmem

/-- A new node is one of those to be found, and found now. -/
theorem length_unknown_fresh_lt {space : List ν} (hspace : ∀ n, ∀ e ∈ edges n, e.2 ∈ space)
    {v : Visit ν σ} (hv : v ∈ fresh known (level.flatMap (·.successors edges))) :
    (unknown space ((fresh known (level.flatMap (·.successors edges))).map (·.node) ++
      known)).length < (unknown space known).length := by
  refine length_unknown_lt (fun m hm => List.mem_append_right _ hm) ?_
    (node_notMem_of_mem_fresh hv) (List.mem_append_left _ (List.mem_map_of_mem hv))
  exact node_mem_of_mem_flatMap hspace ((fresh_sublist _ _).subset hv)

theorem visitsFrom_nil (edges : ν → List (σ × ν)) (goal : ν → Bool) (bound : Nat)
    (known : List ν) : visitsFrom edges goal bound known [] = [] := by
  cases bound <;> simp [visitsFrom]

/-- With a level left for every node still to be found, the edges of all visits get followed. -/
theorem Frontier.exhausted {space : List ν} (hR : PathOrder edges R)
    (hspace : ∀ n, ∀ e ∈ edges n, e.2 ∈ space) {bound : Nat}
    (hbound : (unknown space known).length ≤ bound)
    (h : Frontier edges R depth known earlier level) :
    ∃ depth' known', Frontier edges R depth' known'
      (earlier ++ visitsFrom edges (fun _ => false) bound known level) [] := by
  induction bound generalizing depth known earlier level with
  | zero =>
    have hnone : fresh known (level.flatMap (·.successors edges)) = [] := by
      refine List.eq_nil_iff_forall_not_mem.mpr fun v hv => ?_
      have hlt := length_unknown_fresh_lt hspace hv
      omega
    have hnext := h.next hR
    simp only [hnone] at hnext
    exact ⟨_, _, hnext⟩
  | succ bound ih =>
    by_cases hlevel : level = []
    · subst hlevel
      rw [visitsFrom_nil, List.append_nil]
      exact ⟨depth, known, h⟩
    · have hgo : (level.isEmpty || level.any fun _ => false) = false := by simp [hlevel]
      have hnext := h.next hR
      simp only [visitsFrom, hgo, Bool.false_eq_true, if_false]
      rw [← List.append_assoc]
      by_cases hnone : fresh known (level.flatMap (·.successors edges)) = []
      · rw [hnone] at hnext ⊢
        rw [visitsFrom_nil, List.append_nil]
        exact ⟨_, _, hnext⟩
      · obtain ⟨v, hv⟩ := List.exists_mem_of_ne_nil _ hnone
        refine ih ?_ hnext
        have hlt := length_unknown_fresh_lt hspace hv
        omega

/-- The visits of an exploration that stops at no goal: they come in order, and what a route
leads to has a visit with that route or one before it. -/
structure Complete (edges : ν → List (σ × ν)) (R : List σ → List σ → Prop) (starts : List ν)
    (visits : List (Visit ν σ)) : Prop where
  ordered : visits.Pairwise fun u v => R u.path v.path
  reaches : ∀ {path n}, Route edges starts path n →
    ∃ v ∈ visits, v.node = n ∧ (v.path = path ∨ R v.path path)

theorem Frontier.starts {starts : List ν} (hstarts : R [] [] ∨ ∃ n, starts = [n]) :
    let level : List (Visit ν σ) := fresh [] (starts.map (⟨·, []⟩))
    Frontier edges R 0 (level.map (·.node)) [] level := by
  intro level
  have hpath : ∀ v ∈ level, v.path = [] := fun v hv => by
    obtain ⟨n, _, rfl⟩ := List.mem_map.mp ((fresh_sublist _ _).subset hv)
    rfl
  refine ⟨fun n => List.mem_map, ?_, nofun, fun v hv => ?_, nofun⟩
  · rw [List.nil_append]
    rcases hstarts with hnil | ⟨n, hn⟩
    · refine List.pairwise_of_forall_mem_list fun u hu v hv => ?_
      rw [hpath u hu, hpath v hv]
      exact hnil
    · have hlevel : level = [⟨n, []⟩] := by simp [level, hn, fresh]
      rw [hlevel]
      exact List.pairwise_singleton _ _
  · rw [hpath v hv]
    rfl

theorem mem_fresh_start {starts : List ν} {n : ν} (hn : n ∈ starts) :
    ∃ v ∈ fresh [] (starts.map fun n => (⟨n, []⟩ : Visit ν σ)), v.node = n ∧ v.path = [] := by
  have hpaths : (starts.map fun n => (⟨n, []⟩ : Visit ν σ)).Pairwise fun u _ => u.path = [] :=
    List.pairwise_of_forall_mem_list fun u hu _ _ => by
      obtain ⟨m, _, rfl⟩ := List.mem_map.mp hu
      rfl
  obtain ⟨v, hv, hvn, hpath⟩ :=
    exists_mem_fresh hpaths (List.mem_map_of_mem hn) (List.not_mem_nil (a := n))
  refine ⟨v, hv, hvn, ?_⟩
  rcases hpath with rfl | hpath
  · rfl
  · exact hpath

theorem subset_visitsFrom {goal : ν → Bool} {bound : Nat} :
    level ⊆ visitsFrom edges goal bound known level := by
  cases bound with
  | zero => exact List.Subset.refl _
  | succ bound =>
    unfold visitsFrom
    split
    · exact List.Subset.refl _
    · exact List.subset_append_left _ _

theorem visitsUntil_complete {space starts : List ν} {bound : Nat} (hR : PathOrder edges R)
    (hstarts : R [] [] ∨ ∃ n, starts = [n]) (hspace : ∀ n, ∀ e ∈ edges n, e.2 ∈ space)
    (hbound : space.length ≤ bound) :
    Complete edges R starts (visitsUntil edges (fun _ => false) bound starts) := by
  have hroom : (unknown space ((fresh [] (starts.map fun n => (⟨n, []⟩ : Visit ν σ))).map
      (·.node))).length ≤ bound := (List.length_filter_le _ _).trans hbound
  have hfirst : Frontier edges R 0 _ [] (fresh [] (starts.map (⟨·, []⟩))) := .starts hstarts
  obtain ⟨depth, known, h⟩ := hfirst.exhausted hR hspace hroom
  rw [List.nil_append] at h
  have hordered := h.ordered
  rw [List.append_nil] at hordered
  refine ⟨hordered, fun {path n} hroute => ?_⟩
  induction hroute with
  | @start n hn =>
    obtain ⟨v, hv, hvn, hpath⟩ := mem_fresh_start (σ := σ) hn
    exact ⟨v, subset_visitsFrom hv, hvn, .inl hpath⟩
  | @step path n m x _ hx ih =>
    obtain ⟨u, hu, rfl, hupath⟩ := ih
    obtain ⟨v, hv, hvm, hvpath⟩ := h.followed u hu x m hx
    rw [List.append_nil] at hv
    refine ⟨v, hv, hvm, ?_⟩
    rcases hupath with hupath | hupath
    · rwa [← hupath]
    · have hbefore : R (u.path ++ [x]) (path ++ [x]) := hR.extend x x hupath
      rcases hvpath with hvpath | hvpath
      · rw [hvpath]
        exact .inr hbefore
      · exact .inr (hR.trans hvpath hbefore)

/-! ### Reached nodes -/

theorem mem_reached {edges : ν → List (σ × ν)} {space starts : List ν} {bound : Nat} {n : ν}
    (hspace : ∀ n, ∀ e ∈ edges n, e.2 ∈ space) (hbound : space.length ≤ bound) :
    n ∈ reached edges bound starts ↔ ∃ path, Route edges starts path n := by
  rw [reached, List.mem_map]
  refine ⟨fun h => ?_, fun h => ?_⟩
  · obtain ⟨v, hv, rfl⟩ := h
    exact ⟨v.path, route_of_mem_visitsUntil hv⟩
  · obtain ⟨path, hroute⟩ := h
    have hcomplete : Complete edges (fun _ _ => True) starts _ :=
      visitsUntil_complete (pathOrder_true edges) (.inl trivial) hspace hbound
    obtain ⟨v, hv, hvn, _⟩ := hcomplete.reaches hroute
    exact ⟨v, hv, hvn⟩

theorem nodup_reached (edges : ν → List (σ × ν)) (bound : Nat) (starts : List ν) :
    (reached edges bound starts).Nodup :=
  (visitsFrom_new (nodup_fresh _ _) fun _ hv => List.mem_map_of_mem hv).1

theorem mem_closure {next : ν → List ν} {space starts : List ν} {bound : Nat} {n : ν}
    (hspace : ∀ n, ∀ m ∈ next n, m ∈ space) (hbound : space.length ≤ bound) :
    n ∈ closure next bound starts ↔
      ∃ s ∈ starts, Relation.ReflTransGen (fun m k => k ∈ next m) s n := by
  have hedge : ∀ {m k : ν} {x : Unit}, (x, k) ∈ (next m).map ((), ·) ↔ k ∈ next m := by simp
  rw [closure, mem_reached (fun n e he => hspace n e.2 (hedge.mp he)) hbound]
  refine ⟨fun h => ?_, fun h => ?_⟩
  · obtain ⟨path, hroute⟩ := h
    induction hroute with
    | start hn => exact ⟨_, hn, .refl⟩
    | step _ hx ih =>
      obtain ⟨s, hs, hchain⟩ := ih
      exact ⟨s, hs, hchain.tail (hedge.mp hx)⟩
  · obtain ⟨s, hs, hchain⟩ := h
    induction hchain with
    | refl => exact ⟨[], .start hs⟩
    | tail _ hx ih =>
      obtain ⟨path, hroute⟩ := ih
      exact ⟨path ++ [()], hroute.step (hedge.mpr hx)⟩

/-! ### The first path to a goal -/

/-- Stopping at the first level with a goal does not change which goal comes first. -/
theorem find?_visitsFrom (edges : ν → List (σ × ν)) (goal : ν → Bool) (bound : Nat)
    (known : List ν) (level : List (Visit ν σ)) :
    (visitsFrom edges goal bound known level).find? (goal ·.node) =
      (visitsFrom edges (fun _ => false) bound known level).find? (goal ·.node) := by
  induction bound generalizing known level with
  | zero => rfl
  | succ bound ih =>
    by_cases hlevel : level = []
    · rw [hlevel, visitsFrom_nil, visitsFrom_nil]
    · have hempty : level.isEmpty = false := by simpa using hlevel
      simp only [visitsFrom, hempty, Bool.false_or]
      cases hgoal : level.any (goal ·.node) with
      | true =>
        have hfound : (level.find? (goal ·.node)).isSome := by
          rw [List.find?_isSome]
          exact List.any_eq_true.mp hgoal
        simp [List.find?_append, Option.or_of_isSome hfound]
      | false => simp [List.find?_append, ih]

section Goal
variable {edges : ν → List (σ × ν)} {goal : ν → Bool} {r : σ → σ → Prop} {space : List ν}
  {bound : Nat} {start : ν} (hr : ∀ x y z, r x y → r y z → r x z)
  (hedges : ∀ n, (edges n).Pairwise fun e f => r e.1 f.1)
  (hspace : ∀ n, ∀ e ∈ edges n, e.2 ∈ space) (hbound : space.length ≤ bound)
include hr hedges hspace hbound

theorem pathTo?_eq_none_iff : pathTo? edges goal bound start = none ↔
    ∀ path n, Route edges [start] path n → goal n = false := by
  rw [pathTo?, Option.map_eq_none_iff, visitsUntil, find?_visitsFrom, ← visitsUntil,
    List.find?_eq_none]
  refine ⟨fun hnone path n hroute => ?_, fun hall v hv => ?_⟩
  · have hcomplete := visitsUntil_complete (pathOrder_shortlex hr hedges) (.inr ⟨start, rfl⟩)
      hspace hbound
    obtain ⟨v, hv, rfl, _⟩ := hcomplete.reaches hroute
    simpa using hnone v hv
  · simp [hall v.path v.node (route_of_mem_visitsUntil hv)]

theorem pathTo?_first {path : List σ} (h : pathTo? edges goal bound start = some path) :
    (∃ n, Route edges [start] path n ∧ goal n = true) ∧
      ∀ path' n, Route edges [start] path' n → goal n = true → path' ≠ path →
        List.Shortlex r path path' := by
  have hR : PathOrder edges (List.Shortlex r) := pathOrder_shortlex hr hedges
  rw [pathTo?, visitsUntil, find?_visitsFrom, ← visitsUntil] at h
  obtain ⟨v, hfind, rfl⟩ := Option.map_eq_some_iff.mp h
  obtain ⟨hgoal, before, after, hvisits, hbefore⟩ := List.find?_eq_some_iff_append.mp hfind
  have hcomplete := visitsUntil_complete hR (.inr ⟨start, rfl⟩) hspace hbound
  have hv : v ∈ visitsUntil edges (fun _ => false) bound [start] := List.mem_of_find?_eq_some hfind
  refine ⟨⟨v.node, route_of_mem_visitsUntil hv, hgoal⟩, fun path' n hroute hn hne => ?_⟩
  obtain ⟨u, hu, rfl, hpath⟩ := hcomplete.reaches hroute
  have hordered := hcomplete.ordered
  rw [hvisits] at hu hordered
  obtain ⟨_, hordered, _⟩ := List.pairwise_append.mp hordered
  -- A visit to a goal does not stand before the first one.
  rcases List.mem_append.mp hu with hu | hu
  · have := hbefore u hu
    simp [hn] at this
  rcases List.mem_cons.mp hu with rfl | hu
  · exact hpath.resolve_left fun he => hne he.symm
  · have hvu := (List.pairwise_cons.mp hordered).1 u hu
    rcases hpath with rfl | hpath
    · exact hvu
    · exact hR.trans hvu hpath

end Goal

end FormalLanguage.Exploration
