import JexlScript.Proofs.ChosenNames
import JexlScript.Proofs.OptionalScope

/-!
# What is visited with a stack

A loop over a stack visits what a recursion does that goes into the same parts. A
node is told apart from its equals by its place, the indices of the parts on the way
down to it: the places in lexicographic order are the nodes in reading order.
-/

namespace JexlScript.Script

open List

/-! ## Loops as recursion -/

namespace Traversal

variable {σ : Type} (t : Traversal σ)

/-- A node and what is visited in it, in the order of the visits. -/
def visits (n : Node) : List Node :=
  n :: (t.next n).attach.flatMap fun part => visits part.1
termination_by sizeOf n
decreasing_by
  exact Node.sizeOf_lt_of_mem_children ((t.opens_sublist n).subset ((t.next_perm n).subset part.2))

theorem visits_eq (n : Node) : t.visits n = n :: (t.next n).flatMap t.visits := by
  rw [visits]
  simp

/-- The trees on the stack are what is still to be visited, from the top. -/
theorem run_eq (result : σ) (stack : List Node) :
    t.run result stack = (stack.flatMap t.visits).foldl t.visit result := by
  fun_induction t.run result stack with
  | case1 result => rfl
  | case2 result n stack ih =>
    rw [ih, flatMap_append, flatMap_cons, visits_eq, cons_append, foldl_cons]

/-- A loop that collects names gives each once, in the order of the visits. -/
theorem run_collecting {t : Traversal (List String)} {own : Node → List String}
    (collects : ∀ names n, t.visit names n = (own n).foldl Names.add names) (n : Node) :
    t.run [] [n] = Names.distinct ((t.visits n).flatMap own) := by
  rw [run_eq, flatMap_singleton, Names.distinct, foldl_flatMap, funext₂ collects]

end Traversal

/-! ## Places -/

/-- The node at a place. -/
def Node.nodeAt? (n : Node) (place : List Nat) : Option Node := (n.part? place).map Prod.snd

theorem Node.nodeAt?_cons (n : Node) (i : Nat) (place : List Nat) :
    n.nodeAt? (i :: place) = n.children[i]?.bind fun part => part.nodeAt? place := by
  unfold nodeAt?
  rw [part?]
  cases n.children[i]? with
  | none => rfl
  | some part => cases found : part.part? place <;> simp [found]

/-- The places in a tree, each ahead of those below it and of those to its right. -/
def Node.places (n : Node) : List (List Nat) :=
  [] :: (finRange n.children.length).flatMap fun i =>
    (n.children.get i).places.map (i.val :: ·)
termination_by sizeOf n
decreasing_by exact Node.sizeOf_lt_of_mem_children (get_mem _ _)

theorem Node.nodeAt?_part (n : Node) (i : Fin n.children.length) (place : List Nat) :
    n.nodeAt? (i.val :: place) = (n.children.get i).nodeAt? place := by
  rw [nodeAt?_cons, getElem?_eq_getElem i.isLt]
  rfl

/-- The places are those of nodes. -/
theorem Node.mem_places {n : Node} {place : List Nat} :
    place ∈ n.places ↔ (n.nodeAt? place).isSome := by
  induction place generalizing n with
  | nil =>
    rw [places]
    exact iff_of_true mem_cons_self rfl
  | cons i place ih =>
    rw [places, mem_cons, mem_flatMap]
    constructor
    · rintro (none | ⟨j, -, listed⟩)
      · cases none
      · obtain ⟨rest, listed, same⟩ := mem_map.mp listed
        cases same
        rw [nodeAt?_part]
        exact ih.mp listed
    · intro found
      by_cases inside : i < n.children.length
      · rw [n.nodeAt?_part ⟨i, inside⟩] at found
        exact .inr ⟨⟨i, inside⟩, mem_finRange _, mem_map_of_mem (ih.mpr found)⟩
      · rw [nodeAt?_cons, getElem?_eq_none (Nat.le_of_not_lt inside)] at found
        cases found

/-- They come in lexicographic order. -/
theorem Node.places_sorted (n : Node) : n.places.Pairwise (· < ·) := by
  induction n using Node.ofParts with
  | step n ih =>
    rw [places, pairwise_cons, pairwise_flatMap]
    refine ⟨fun place member => ?_, fun i _ => ?_, ?_⟩
    · obtain ⟨i, -, inside⟩ := mem_flatMap.mp member
      obtain ⟨rest, -, rfl⟩ := mem_map.mp inside
      exact nil_lt_cons _ _
    · rw [pairwise_map]
      exact (ih _ (get_mem _ i)).imp fun before => cons_lt_cons_iff.mpr (.inr ⟨rfl, before⟩)
    · refine (pairwise_lt_finRange _).imp fun less place first place' second => ?_
      obtain ⟨rest, -, rfl⟩ := mem_map.mp first
      obtain ⟨rest', -, rfl⟩ := mem_map.mp second
      exact cons_lt_cons_iff.mpr (.inl less)

/-- The nodes at the places are those of a walk. -/
theorem Node.map_nodeAt?_places (n : Node) : n.places.map n.nodeAt? = n.walk.map some := by
  induction n using Node.ofParts with
  | step n ih =>
    have parts : n.children.flatMap Node.walk =
        (finRange n.children.length).flatMap fun i => (n.children.get i).walk := by
      rw [← flatMap_map n.children.get, map_get_finRange]
    rw [places, walk_eq, parts, map_cons, map_cons, map_flatMap, map_flatMap]
    refine congrArg (some n :: ·) (flatMap_congr fun i _ => ?_)
    rw [map_map, ← ih _ (get_mem _ i)]
    exact map_congr_left fun place _ => n.nodeAt?_part i place

/-- Every step on the way to a place is allowed. -/
def Node.Leads (allowed : Node → Nat → Prop) (n : Node) (place : List Nat) : Prop :=
  ∀ above i, above ++ [i] <+: place → ∀ m, n.nodeAt? above = some m → allowed m i

theorem Node.leads_cons {allowed : Node → Nat → Prop} {n part : Node} {i : Nat} {place : List Nat}
    (is : n.children[i]? = some part) :
    n.Leads allowed (i :: place) ↔ allowed n i ∧ part.Leads allowed place := by
  constructor
  · intro leads
    refine ⟨leads [] i (prefix_append [i] place) n rfl, fun above j before m found => ?_⟩
    refine leads (i :: above) j ((prefix_cons_inj i).mpr before) m ?_
    rw [nodeAt?_cons, is]
    exact found
  · rintro ⟨first, rest⟩ (_ | ⟨k, above⟩) j before m found
    · obtain ⟨rfl, -⟩ := cons_prefix_cons.mp before
      cases found
      exact first
    · obtain ⟨rfl, inside⟩ := cons_prefix_cons.mp before
      rw [nodeAt?_cons, is] at found
      exact rest above j inside m found

/-- Visited is what every step on the way down leads to. -/
theorem Traversal.mem_visits {σ : Type} (t : Traversal σ) {allowed : Node → Nat → Prop}
    (opens : ∀ n m, m ∈ t.opens n ↔ ∃ i, n.children[i]? = some m ∧ allowed n i) (n m : Node) :
    m ∈ t.visits n ↔ ∃ place, n.nodeAt? place = some m ∧ n.Leads allowed place := by
  induction n using Node.ofParts with
  | step n ih =>
    rw [visits_eq, mem_cons, mem_flatMap]
    constructor
    · rintro (rfl | ⟨part, pushed, visited⟩)
      · exact ⟨[], rfl, fun above i before => absurd before (by simp)⟩
      · obtain ⟨i, is, allows⟩ := (opens n part).mp ((t.next_perm n).mem_iff.mp pushed)
        obtain ⟨place, found, leads⟩ := (ih part (mem_of_getElem? is)).mp visited
        refine ⟨i :: place, ?_, (Node.leads_cons is).mpr ⟨allows, leads⟩⟩
        rw [Node.nodeAt?_cons, is]
        exact found
    · rintro ⟨_ | ⟨i, place⟩, found, leads⟩
      · cases found
        exact .inl rfl
      · rw [Node.nodeAt?_cons] at found
        obtain ⟨part, is, found⟩ := Option.bind_eq_some_iff.mp found
        obtain ⟨allows, leads⟩ := (Node.leads_cons is).mp leads
        exact .inr ⟨part, (t.next_perm n).mem_iff.mpr ((opens n part).mpr ⟨i, is, allows⟩),
          (ih part (mem_of_getElem? is)).mpr ⟨place, found, leads⟩⟩

theorem Traversal.mem_run_collecting {t : Traversal (List String)} {own : Node → List String}
    {allowed : Node → Nat → Prop}
    (collects : ∀ names n, t.visit names n = (own n).foldl Names.add names)
    (opens : ∀ n m, m ∈ t.opens n ↔ ∃ i, n.children[i]? = some m ∧ allowed n i)
    (n : Node) (x : String) : x ∈ t.run [] [n] ↔
      ∃ place m, n.nodeAt? place = some m ∧ n.Leads allowed place ∧ x ∈ own m := by
  simp only [run_collecting collects, Names.mem_distinct, mem_flatMap, t.mem_visits opens,
    ← exists_and_right, and_assoc]
  exact exists_comm

/-! ## All nodes -/

/-- A loop over all parts is a walk. -/
theorem Node.visited_eq (n : Node) : n.visited = n.walk := by
  have all (n : Node) : Traversal.preorder.visits n = n.walk := by
    induction n using Node.ofParts with
    | step n ih =>
      rw [Traversal.visits_eq, walk_eq]
      exact congrArg (n :: ·) (flatMap_congr ih)
  have collected (ns nodes : List Node) :
      ns.foldl Traversal.preorder.visit nodes = nodes ++ ns := by
    induction ns generalizing nodes with
    | nil => exact (append_nil nodes).symm
    | cons n ns ih => rw [foldl_cons, ih, Traversal.preorder, append_assoc, singleton_append]
  rw [visited, Traversal.run_eq, collected, flatMap_singleton, nil_append, all]

/-! ## Names read or bound -/

/-- Whether a node is an access by a name. -/
def Node.isPlainAccess : Node → Bool
  | .expr (.member _ _ false _) => true
  | _ => false

/-- All parts are read but the name of a plain access. -/
theorem Node.mem_readParts (n m : Node) :
    m ∈ n.readParts ↔ ∃ i, n.children[i]? = some m ∧ ¬(n.isPlainAccess ∧ i = 1) := by
  unfold readParts
  split
  · next obj prop optional =>
      constructor
      · intro first
        exact ⟨0, congrArg some (mem_singleton.mp first).symm, by simp⟩
      · rintro ⟨_ | _ | i, is, other⟩
        · cases is
          exact mem_cons_self
        · exact absurd ⟨rfl, rfl⟩ other
        · cases is
  · next other =>
      have computed : n.isPlainAccess = false := by
        unfold isPlainAccess
        split
        · exact absurd rfl (other _ _ _)
        · rfl
      simp [computed, mem_iff_getElem?]

theorem Node.mem_reach_iff (n m : Node) : m ∈ n.reach ↔ m ∈ Traversal.references.visits n := by
  induction n using Node.ofParts with
  | step n ih =>
    rw [reach_eq, Traversal.visits_eq, mem_cons, mem_cons, mem_flatMap, mem_flatMap]
    refine or_congr_right (exists_congr fun part => ?_)
    rw [(Traversal.references.next_perm n).mem_iff]
    exact and_congr_right fun read => ih part (n.readParts_sublist.subset read)

theorem Node.mem_referenced {n : Node} {x : String} : x ∈ n.referenced ↔ x ∈ n.names := by
  rw [referenced, Traversal.run_collecting fun _ _ => rfl, Names.mem_distinct, names_eq,
    mem_flatMap, mem_flatMap]
  exact exists_congr fun m => and_congr_left' (n.mem_reach_iff m).symm

/-! ## Names declared in a body -/

theorem Node.flatMap_declared_visits (n : Node) :
    (Traversal.declarations.visits n).flatMap Node.declared = n.declarations := by
  induction n using Node.ofParts with
  | step n ih =>
    rw [Traversal.visits_eq, flatMap_cons, flatMap_assoc, declarations_eq]
    refine congrArg (n.declared ++ ·) (flatMap_congr fun part pushed => ih part ?_)
    exact n.openParts_sublist.subset (mem_reverse.mp pushed)

/-- The declared names, each once. -/
theorem Node.declaredNames_eq (n : Node) : n.declaredNames = Names.distinct n.declarations := by
  rw [declaredNames, Traversal.run_collecting fun _ _ => rfl, flatMap_declared_visits]

theorem Node.mem_openParts (n m : Node) :
    m ∈ n.openParts ↔ ∃ i : Nat, n.children[i]? = some m ∧ ¬n.isArrow := by
  unfold openParts
  split
  · next arrow => simp [arrow]
  · next other => simp [other, mem_iff_getElem?]

/-- Every traversal of a tree ends. All nodes are listed in reading order, one for each place.
The names that are read or bound come from the identifiers, the parameters of arrows and the
targets of assignments at the places that no property of a plain access is on the way to, and the
declared names, each once, from the declarations that no arrow is around. -/
theorem traversals_visit_once (n : Node) :
    (n.visited = n.walk ∧ n.walk.map some = n.places.map n.nodeAt? ∧
      n.places.Pairwise (· < ·) ∧ ∀ place, place ∈ n.places ↔ (n.nodeAt? place).isSome) ∧
    (∀ x, (x ∈ n.referenced ↔ x ∈ n.names) ∧
      (x ∈ n.referenced ↔ ∃ place m, n.nodeAt? place = some m ∧
        n.Leads (fun k i => ¬(k.isPlainAccess ∧ i = 1)) place ∧ x ∈ m.named)) ∧
    (n.declaredNames.Nodup ∧
      ∀ x, x ∈ n.declaredNames ↔ ∃ place m, n.nodeAt? place = some m ∧
        n.Leads (fun k _ => ¬k.isArrow) place ∧ x ∈ m.declared) ∧
    ∀ b : Inline.Body, b.walk = b.node.visited ∧ b.names = b.node.names ∧
      b.declared = b.node.declaredNames := by
  have nodup : n.declaredNames.Nodup := n.declaredNames_eq ▸ Names.nodup_distinct _
  refine ⟨⟨n.visited_eq, n.map_nodeAt?_places.symm, n.places_sorted, fun _ => n.mem_places⟩,
    fun x => ⟨n.mem_referenced, ?_⟩, ⟨nodup, fun x => ?_⟩, fun b => ⟨?_, b.names_node.symm, ?_⟩⟩
  · exact Traversal.mem_run_collecting (fun _ _ => rfl) Node.mem_readParts n x
  · exact Traversal.mem_run_collecting (fun _ _ => rfl) Node.mem_openParts n x
  · rw [Node.visited_eq]
    cases b <;> rfl
  · rw [Node.declaredNames_eq]
    cases b <;> rfl

end JexlScript.Script
