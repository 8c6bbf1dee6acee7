import Drafting.Formula.Walk
import Drafting.Proofs.Rendering.Refusal
import Mathlib.Data.List.Basic
import Mathlib.Logic.Function.Iterate

/-!
# The order of a walk

A walk keeps the trees still to be visited on a stack, and puts the children of a node on it from
right to left. Its loop ends after one round for each node, and has then visited the nodes in the
recursive preorder. A foreign value counts as a node without children; it is `Assembly.census` that
complains of it.

Equal nodes may stand in several places of a tree. A place is told by the way to it from the root, so
that visiting every place once, and a parent before what is below it, is said of ways.

## Main definitions

* `Assembly.Visiting` — the loop between two rounds, and `Assembly.Visiting.round`.
* `Assembly.subtree?` — the node that a way leads to.
* `Assembly.ways` — the ways to all nodes.

Main statement: `Assembly.walk_preorder`.
-/

namespace Drafting.Assembly

/-! ## The loop -/

/-- The loop of a walk between two rounds: the trees still to be visited, the next one last, and the
nodes visited so far. -/
structure Visiting where
  stack : List Assembly
  visited : List Assembly

namespace Visiting

def start (tree : Assembly) : Visiting := ⟨[tree], []⟩

/-- A round takes the last tree from the stack, visits it, and puts its children on the stack, the
first child last. The loop stays as it is when it has ended. -/
def round (loop : Visiting) : Visiting :=
  match loop.stack.getLast? with
  | none => loop
  | some tree => ⟨loop.stack.dropLast ++ tree.children.reverse, loop.visited ++ [tree]⟩

theorem round_nil (visited : List Assembly) : round ⟨[], visited⟩ = ⟨[], visited⟩ := rfl

theorem round_concat (stack visited : List Assembly) (tree : Assembly) :
    round ⟨stack ++ [tree], visited⟩ = ⟨stack ++ tree.children.reverse, visited ++ [tree]⟩ := by
  simp [round]

/-- Each round visits the next node of the walk, and leaves the rest of it to be visited, whatever is
on the stack. -/
theorem iterate_round (loop : Visiting) (n : Nat) :
    (round^[n] loop).visited = loop.visited ++ (visit loop.stack.reverse).take n ∧
      visit (round^[n] loop).stack.reverse = (visit loop.stack.reverse).drop n := by
  induction n generalizing loop with
  | zero => simp
  | succ n ih =>
    obtain ⟨stack, visited⟩ := loop
    rw [Function.iterate_succ_apply]
    rcases stack.eq_nil_or_concat' with rfl | ⟨stack, tree, rfl⟩
    · simpa [round_nil, visit] using ih ⟨[], visited⟩
    · have hvisit : visit (stack ++ [tree]).reverse =
          tree :: visit (stack ++ tree.children.reverse).reverse := by
        simp [visit]
      obtain ⟨hvisited, hstack⟩ := ih ⟨stack ++ tree.children.reverse, visited ++ [tree]⟩
      rw [round_concat, hvisited, hstack, hvisit]
      simp

end Visiting

/-! ## Preorder -/

theorem preorder_eq (tree : Assembly) : tree.preorder = tree :: tree.children.flatMap preorder := by
  cases tree <;> simp [preorder, children]

theorem visit_eq_flatMap (pending : List Assembly) : visit pending = pending.flatMap preorder := by
  fun_induction visit pending with
  | case1 => rfl
  | case2 tree pending ih =>
    rw [ih, List.flatMap_cons, preorder_eq, List.flatMap_append, List.cons_append]

theorem length_visit (pending : List Assembly) : (visit pending).length = totalSize pending := by
  fun_induction visit pending with
  | case1 => rfl
  | case2 tree pending ih =>
    rw [List.length_cons, ih, totalSize_append, totalSize, size_eq]
    omega

theorem visit_eq_nil_iff {pending : List Assembly} : visit pending = [] ↔ pending = [] := by
  cases pending <;> simp [visit]

/-! ## Ways -/

/-- The node that a way leads to from the root. A way tells for each step down which child to take. -/
def subtree? : Assembly → List Nat → Option Assembly
  | tree, [] => some tree
  | tree, i :: way => tree.children[i]?.bind fun child => child.subtree? way

/-- The ways to the nodes of a tree, each before the ways that go on from it. -/
def ways : Assembly → List (List Nat)
  | integer _ | decimal _ | reference .. | foreign _ => [[]]
  | parenthesized inner => [] :: inner.ways.map (0 :: ·)
  | call _ argument => [] :: argument.ways.map (0 :: ·)
  | callPair _ first second => [] :: (first.ways.map (0 :: ·) ++ second.ways.map (1 :: ·))
  | binary left _ right => [] :: (left.ways.map (0 :: ·) ++ right.ways.map (1 :: ·))
  | conditional condition whenTrue whenFalse =>
    [] :: (condition.ways.map (0 :: ·) ++
      (whenTrue.ways.map (1 :: ·) ++ whenFalse.ways.map (2 :: ·)))

theorem ways_eq (tree : Assembly) :
    tree.ways = [] :: tree.children.zipIdx.flatMap fun (child, i) => child.ways.map (i :: ·) := by
  cases tree <;> simp [ways, children]

/-- What holds of a node as soon as it holds of its children holds of all trees. -/
theorem induction_children {motive : Assembly → Prop}
    (step : ∀ tree, (∀ child ∈ tree.children, motive child) → motive tree) (tree : Assembly) :
    motive tree := by
  induction tree <;> exact step _ (by simp_all [children])

/-- The node that stands at each way of a tree, in preorder. -/
theorem map_subtree?_ways (tree : Assembly) :
    tree.ways.map tree.subtree? = tree.preorder.map some := by
  induction tree using induction_children with
  | step tree ih =>
    have hbelow : ∀ x ∈ tree.children.zipIdx,
        (x.1.ways.map (x.2 :: ·)).map tree.subtree? = x.1.preorder.map some := by
      intro ⟨child, i⟩ hx
      have hchild := List.mem_zipIdx_iff_getElem?.1 hx
      rw [← ih child (List.mem_of_getElem? hchild), List.map_map]
      simp [Function.comp_def, subtree?, hchild]
    rw [ways_eq, preorder_eq, List.map_cons, List.map_cons, List.map_flatMap, List.map_flatMap,
      List.flatMap_congr hbelow]
    conv_rhs => rw [← List.zipIdx_map_fst 0 tree.children, List.flatMap_map]
    rfl

theorem cons_mem_ways {tree : Assembly} {i : Nat} {way : List Nat} :
    i :: way ∈ tree.ways ↔ ∃ child, tree.children[i]? = some child ∧ way ∈ child.ways := by
  rw [ways_eq]
  simp [List.mem_zipIdx_iff_getElem?]

/-- Every place of a tree has its way. -/
theorem mem_ways {tree : Assembly} {way : List Nat} :
    way ∈ tree.ways ↔ (tree.subtree? way).isSome := by
  induction way generalizing tree with
  | nil =>
    rw [ways_eq]
    simp [subtree?]
  | cons i way ih =>
    rw [cons_mem_ways, subtree?]
    cases tree.children[i]? <;> simp [ih]

/-- No way comes after one that goes on from it. -/
theorem pairwise_ways (tree : Assembly) :
    tree.ways.Pairwise fun earlier later => ¬ later <+: earlier := by
  induction tree using induction_children with
  | step tree ih =>
    have hindices : tree.children.zipIdx.Pairwise fun x y => x.2 < y.2 := by
      rw [← List.pairwise_map, List.zipIdx_map_snd]
      exact List.pairwise_lt_range'
    rw [ways_eq, List.pairwise_cons, List.pairwise_flatMap]
    refine ⟨?_, ?_, hindices.imp ?_⟩
    · -- nothing below the root has the empty way
      intro way hway hroot
      rw [List.prefix_nil] at hroot
      simp [hroot] at hway
    · -- the ways through one child
      intro ⟨child, i⟩ hx
      have hchild := List.mem_zipIdx_iff_getElem?.1 hx
      rw [List.pairwise_map]
      simpa using ih child (List.mem_of_getElem? hchild)
    · -- the ways through two children part at the first step
      intro x y hlt _ hearlier _ hlater
      obtain ⟨earlier, -, rfl⟩ := List.mem_map.1 hearlier
      obtain ⟨later, -, rfl⟩ := List.mem_map.1 hlater
      simp [Nat.ne_of_gt hlt]

/-- The loop of a walk ends after one round for each node. It visits the root, and then what is below
each child from left to right, in the same order. So it comes to every place of the tree once, and
to a node before it comes to what is below. -/
theorem walk_preorder (tree : Assembly) :
    (∀ n, let loop := Visiting.round^[n] (.start tree)
      loop.visited = tree.walk.take n ∧ (loop.stack = [] ↔ tree.size ≤ n)) ∧
    tree.walk = tree :: tree.children.flatMap preorder ∧
    tree.walk.length = tree.size ∧
    tree.walk.map some = tree.ways.map tree.subtree? ∧
    (∀ way, way ∈ tree.ways ↔ (tree.subtree? way).isSome) ∧
    tree.ways.Pairwise fun earlier later => ¬ later <+: earlier := by
  have hwalk : tree.walk = tree.preorder := by simp [walk, visit_eq_flatMap]
  have hlength : tree.walk.length = tree.size := by simp [walk, length_visit, totalSize]
  refine ⟨fun n => ?_, ?_, hlength, ?_, fun way => mem_ways, pairwise_ways tree⟩
  · obtain ⟨hvisited, hstack⟩ := (Visiting.start tree).iterate_round n
    refine ⟨hvisited, ?_⟩
    rw [← List.reverse_eq_nil_iff, ← visit_eq_nil_iff, hstack, List.drop_eq_nil_iff]
    exact hlength ▸ Iff.rfl
  · rw [hwalk, preorder_eq]
  · rw [hwalk, map_subtree?_ways]

/-- The places of `a + f(b, 2)`. -/
example :
    let name (c : Char) := reference .plain [c]
    let call := callPair ['f'] (name 'b') (integer (.whole 2))
    (binary (name 'a') (.known .add) call).ways = [[], [0], [1], [1, 0], [1, 1]] := rfl

end Drafting.Assembly
