import BlockLang.Proofs.Grammar.Written
import Mathlib.Data.List.Perm.Basic

/-!
# Trees of nodes

The nodes of a program, without the rest of its tree: what a node is, between which places in the token list it is
written, and which nodes stand directly below it.  Some nodes get their id before the nodes below them and some after,
and nodes side by side get theirs from left to right.  If the ids of a forest increase in this order and its nodes are
laid out side by side, then whatever two nodes are compared, one above the other or one before the other, tells which of
them has the smaller id.

## Main definitions

- `NodeTree`, `NodeTree.nodes`: a node with what is below it, and all nodes of it.
- `NodeTree.ids`: ids in the order in which they are handed out.
- `NodeTree.Laid`: nodes below lie within, one after the other.

## Main statements

- `ids_above`: a node and a node below it.
- `ids_apart`: two nodes of which neither contains the other.
-/

namespace BlockLang

/-! ## §1 Nodes -/

/-- What a node is. -/
inductive NodeKind where
  | global
  | function
  | parameter
  | declaration
  /-- A list written element by element. -/
  | list
  /-- Any other expression. -/
  | expression
deriving DecidableEq, Repr

/-- Whether a node gets its id before the nodes below it. -/
def NodeKind.first : NodeKind → Bool
  | expression => false
  | global | function | parameter | declaration | list => true

/-- A node that is written from one place of the token list to another, and the nodes directly below it. -/
inductive NodeTree where
  | mk (node : Node) (kind : NodeKind) (start stop : Nat) (below : List NodeTree)

namespace NodeTree

def node : NodeTree → Node
  | mk node _ _ _ _ => node

def kind : NodeTree → NodeKind
  | mk _ kind _ _ _ => kind

/-- The place of the first token. -/
def start : NodeTree → Nat
  | mk _ _ start _ _ => start

/-- The place behind the last token. -/
def stop : NodeTree → Nat
  | mk _ _ _ stop _ => stop

def id (t : NodeTree) : Nat := t.node.id

mutual

/-- The nodes of a tree: its root and all nodes below. -/
def nodes : NodeTree → List NodeTree
  | mk node kind start stop below => mk node kind start stop below :: forestNodes below

/-- The nodes of several trees. -/
def forestNodes : List NodeTree → List NodeTree
  | [] => []
  | t :: rest => t.nodes ++ forestNodes rest

end

/-- All nodes below the root. -/
def descendants : NodeTree → List NodeTree
  | mk _ _ _ _ below => forestNodes below

mutual

/-- The ids of a tree in the order in which they are handed out. -/
def ids : NodeTree → List Nat
  | mk node kind _ _ below => if kind.first then node.id :: forestIds below else forestIds below ++ [node.id]

/-- The ids of several trees. -/
def forestIds : List NodeTree → List Nat
  | [] => []
  | t :: rest => t.ids ++ forestIds rest

end

mutual

/-- The nodes below lie within, one after the other. -/
def Laid : NodeTree → Prop
  | mk _ _ start stop below => start < stop ∧ ForestLaid start stop below

/-- Several trees lie within, one after the other. -/
def ForestLaid : (lo hi : Nat) → List NodeTree → Prop
  | lo, hi, [] => lo ≤ hi
  | lo, hi, t :: rest => lo ≤ t.start ∧ t.Laid ∧ ForestLaid t.stop hi rest

end

theorem forestNodes_eq (ts : List NodeTree) : forestNodes ts = ts.flatMap nodes := by
  induction ts with
  | nil => rfl
  | cons t rest ih => rw [forestNodes, ih, List.flatMap_cons]

theorem forestNodes_append (ts us : List NodeTree) : forestNodes (ts ++ us) = forestNodes ts ++ forestNodes us := by
  simp only [forestNodes_eq, List.flatMap_append]

theorem forestIds_append (ts us : List NodeTree) : forestIds (ts ++ us) = forestIds ts ++ forestIds us := by
  induction ts with
  | nil => rfl
  | cons t rest ih => rw [List.cons_append, forestIds, ih, forestIds, List.append_assoc]

/-! ## §2 Ids -/

mutual

/-- Every node has one id. -/
theorem ids_perm : ∀ t : NodeTree, t.ids.Perm (t.nodes.map id)
  | mk node kind start stop below => by
    have hbelow := forestIds_perm below
    rw [ids, nodes, List.map_cons]
    split
    · exact hbelow.cons _
    · exact (List.perm_append_singleton _ _).trans (hbelow.cons _)

theorem forestIds_perm : ∀ ts : List NodeTree, (forestIds ts).Perm ((forestNodes ts).map id)
  | [] => .nil
  | t :: rest => by
    rw [forestIds, forestNodes, List.map_append]
    exact t.ids_perm.append (forestIds_perm rest)

end

theorem id_mem_forestIds {x : NodeTree} {ts : List NodeTree} (hx : x ∈ forestNodes ts) : x.id ∈ forestIds ts :=
  (forestIds_perm ts).mem_iff.mpr (List.mem_map_of_mem hx)

theorem forestIds_sublist_ids (node : Node) (kind : NodeKind) (start stop : Nat) (below : List NodeTree) :
    (forestIds below).Sublist (ids (mk node kind start stop below)) := by
  rw [ids]
  split
  · exact List.sublist_cons_self _ _
  · exact List.sublist_append_left _ _

mutual

/-- The ids of a node and of those below it are handed out in the same order within any tree. -/
theorem ids_sublist : ∀ {t x : NodeTree}, x ∈ t.nodes → x.ids.Sublist t.ids
  | mk node kind start stop below, x, hx => by
    rcases List.mem_cons.mp hx with rfl | hx
    · exact .refl _
    · exact (forestIds_sublist hx).trans (forestIds_sublist_ids node kind start stop below)

theorem forestIds_sublist : ∀ {ts : List NodeTree} {x : NodeTree}, x ∈ forestNodes ts → x.ids.Sublist (forestIds ts)
  | _ :: _, _, hx => by
    rcases List.mem_append.mp hx with hx | hx
    · exact (ids_sublist hx).trans (List.sublist_append_left _ _)
    · exact (forestIds_sublist hx).trans (List.sublist_append_right _ _)

end

/-- A node and the nodes below it: its kind tells whether its id is smaller or larger than theirs. -/
theorem ids_above {ts : List NodeTree} (hids : (forestIds ts).Pairwise (· < ·)) {x y : NodeTree}
    (hx : x ∈ forestNodes ts) (hy : y ∈ x.descendants) : if x.kind.first then x.id < y.id else y.id < x.id := by
  have hxids := hids.sublist (forestIds_sublist hx)
  obtain ⟨node, kind, start, stop, below⟩ := x
  have hyid : y.id ∈ forestIds below := id_mem_forestIds hy
  rw [ids] at hxids
  by_cases hfirst : kind.first = true
  · rw [if_pos hfirst] at hxids
    exact (if_pos hfirst).mpr ((List.pairwise_cons.mp hxids).1 _ hyid)
  · rw [if_neg hfirst] at hxids
    exact (if_neg hfirst).mpr ((List.pairwise_append.mp hxids).2.2 _ hyid _ (List.mem_singleton_self _))

/-! ## §3 Places -/

theorem ForestLaid.mono {ts : List NodeTree} {lo hi lo' hi' : Nat} (h : ForestLaid lo hi ts) (hlo : lo' ≤ lo)
    (hhi : hi ≤ hi') : ForestLaid lo' hi' ts := by
  induction ts generalizing lo lo' with
  | nil => exact hlo.trans (h.trans hhi)
  | cons t rest ih => exact ⟨hlo.trans h.1, h.2.1, ih h.2.2 le_rfl⟩

theorem ForestLaid.append {ts us : List NodeTree} {lo mid hi : Nat} (hts : ForestLaid lo mid ts)
    (hus : ForestLaid mid hi us) : ForestLaid lo hi (ts ++ us) := by
  induction ts generalizing lo with
  | nil => exact hus.mono hts le_rfl
  | cons t rest ih => exact ⟨hts.1, hts.2.1, ih hts.2.2⟩

theorem Laid.start_lt_stop {t : NodeTree} (h : t.Laid) : t.start < t.stop := by
  obtain ⟨node, kind, start, stop, below⟩ := t
  exact h.1

theorem ForestLaid.le {ts : List NodeTree} {lo hi : Nat} (h : ForestLaid lo hi ts) : lo ≤ hi := by
  induction ts generalizing lo with
  | nil => exact h
  | cons t rest ih => exact h.1.trans (h.2.1.start_lt_stop.le.trans (ih h.2.2))

mutual

/-- Every node of a tree begins within it. -/
theorem Laid.bounds : ∀ {t x : NodeTree}, t.Laid → x ∈ t.nodes → t.start ≤ x.start ∧ x.start < t.stop
  | mk node kind start stop below, x, ht, hx => by
    rcases List.mem_cons.mp hx with rfl | hx
    · exact ⟨le_rfl, ht.1⟩
    · exact ForestLaid.bounds ht.2 hx

theorem ForestLaid.bounds : ∀ {ts : List NodeTree} {lo hi : Nat} {x : NodeTree}, ForestLaid lo hi ts →
    x ∈ forestNodes ts → lo ≤ x.start ∧ x.start < hi
  | t :: rest, lo, hi, x, ⟨hlo, ht, hrest⟩, hx => by
    have hstop := ht.start_lt_stop
    rcases List.mem_append.mp hx with hx | hx
    · obtain ⟨hstart, hend⟩ := Laid.bounds ht hx
      exact ⟨hlo.trans hstart, hend.trans_le hrest.le⟩
    · obtain ⟨hstart, hend⟩ := ForestLaid.bounds hrest hx
      exact ⟨hlo.trans (hstop.le.trans hstart), hend⟩

end

/-- One node is before another one, both by place and by id. -/
def Before (x y : NodeTree) : Prop :=
  x.start < y.start ∧ x.id < y.id

/-- Of two trees side by side, all nodes of the one are before all nodes of the other. -/
theorem before_of_cons {t : NodeTree} {rest : List NodeTree} {lo hi : Nat} (hlaid : ForestLaid lo hi (t :: rest))
    (hids : (forestIds (t :: rest)).Pairwise (· < ·)) {x y : NodeTree} (hx : x ∈ t.nodes) (hy : y ∈ forestNodes rest) :
    Before x y := by
  have hxid : x.id ∈ t.ids := t.ids_perm.mem_iff.mpr (List.mem_map_of_mem hx)
  have hend := (Laid.bounds hlaid.2.1 hx).2
  have hstart := (ForestLaid.bounds hlaid.2.2 hy).1
  exact ⟨hend.trans_le hstart, (List.pairwise_append.mp hids).2.2 _ hxid _ (id_mem_forestIds hy)⟩

mutual

theorem before_or_of_tree : ∀ {t x y : NodeTree}, t.Laid → t.ids.Pairwise (· < ·) → x ∈ t.nodes → y ∈ t.nodes →
    y ∉ x.nodes → x ∉ y.nodes → Before x y ∨ Before y x
  | mk node kind start stop below, x, y, hlaid, hids, hx, hy, hxy, hyx => by
    rcases List.mem_cons.mp hx with rfl | hx'
    · exact absurd hy hxy
    rcases List.mem_cons.mp hy with rfl | hy'
    · exact absurd hx hyx
    have hbelow := hids.sublist (forestIds_sublist_ids node kind start stop below)
    exact ids_apart hlaid.2 hbelow hx' hy' hxy hyx

/-- Two nodes of which neither contains the other: the one that is written first has the smaller id. -/
theorem ids_apart : ∀ {ts : List NodeTree} {lo hi : Nat} {x y : NodeTree}, ForestLaid lo hi ts →
    (forestIds ts).Pairwise (· < ·) → x ∈ forestNodes ts → y ∈ forestNodes ts → y ∉ x.nodes → x ∉ y.nodes →
    Before x y ∨ Before y x
  | t :: rest, lo, hi, x, y, hlaid, hids, hx, hy, hxy, hyx => by
    obtain ⟨hfirst, hrest, -⟩ := List.pairwise_append.mp hids
    -- Both are in the first tree, or both are behind it, or the first tree has parted them.
    rcases List.mem_append.mp hx with hx | hx <;> rcases List.mem_append.mp hy with hy | hy
    · exact before_or_of_tree hlaid.2.1 hfirst hx hy hxy hyx
    · exact Or.inl (before_of_cons hlaid hids hx hy)
    · exact Or.inr (before_of_cons hlaid hids hy hx)
    · exact ids_apart hlaid.2.2 hrest hx hy hxy hyx

end

end NodeTree

end BlockLang
