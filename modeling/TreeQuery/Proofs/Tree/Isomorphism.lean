import Mathlib.Data.Set.Function
import TreeQuery.Proofs.Tree.Descent
import TreeQuery.Tree.Navigation

/-!
# Parts of trees that have the same shape

What lies at and below a node of one tree may be carried over into another tree by a map of places
that keeps the data of every node and the list of its children. Where the map is one-to-one and leaves
nothing out below the node it leads to, both parts are isomorphic. Neither the places themselves nor
anything else in the two arenas has a part in this: not the parents, not the siblings, and not what lies
elsewhere.

The names of a map of attributes have no order, so the data of two elements is the same when all names
have the same values.
-/

namespace TreeQuery

/-- Two kinds of nodes with the same data; of attributes it is the values of their names that count. -/
inductive NodeKind.Alike : NodeKind → NodeKind → Prop
  | document : Alike .document .document
  | element (tag : String) {attributes attributes' : Attributes}
      (h : ∀ name, attributes.get? name = attributes'.get? name) :
      Alike (.element tag attributes) (.element tag attributes')
  | text (content : String) : Alike (.text content) (.text content)
  | comment (content : String) : Alike (.comment content) (.comment content)

/-- Kinds with the same data are the same. -/
theorem NodeKind.Alike.eq {kind kind' : NodeKind} (h : Alike kind kind') : kind = kind' := by
  cases h with
  | document => rfl
  | element tag h => rw [Attributes.ext_get? h]
  | text content => rfl
  | comment content => rfl

theorem NodeKind.Alike.refl (kind : NodeKind) : Alike kind kind := by
  cases kind with
  | document => exact .document
  | element tag attributes => exact .element tag fun _ => rfl
  | text content => exact .text content
  | comment content => exact .comment content

/-- What is the same is alike, whether there is a kind or none. -/
theorem NodeKind.rel_refl (kind : Option NodeKind) : Option.Rel Alike kind kind := by
  cases kind with
  | none => exact .none
  | some kind => exact .some (.refl kind)

namespace Tree

/-- A map that carries what lies at and below a root over into another tree: it keeps the data of every
node there and the list of its children. -/
structure Carries (tree tree' : Tree) (root : NodeId) (f : NodeId → NodeId) : Prop where
  kind : ∀ {node}, tree.Reaches root node →
    Option.Rel NodeKind.Alike (tree.kind? node) (tree'.kind? (f node))
  children : ∀ {node}, tree.Reaches root node → tree'.children (f node) = (tree.children node).map f

/-- A one-to-one map from what lies at and below a root onto what lies at and below another one, which
keeps the data of every node and the list of its children. -/
structure Isomorphism (tree tree' : Tree) (root root' : NodeId) (f : NodeId → NodeId) : Prop
    extends Carries tree tree' root f where
  bijective : Set.BijOn f {node | tree.Reaches root node} {node | tree'.Reaches root' node}
  root_eq : f root = root'

namespace Carries

variable {tree tree' : Tree} {root node : NodeId} {f : NodeId → NodeId}

/-- A node that is carried over keeps its kind. -/
theorem kind_eq (h : Carries tree tree' root f) (hnode : tree.Reaches root node) :
    tree'.kind? (f node) = tree.kind? node := by
  have hkind := h.kind hnode
  revert hkind
  generalize tree.kind? node = kind
  generalize tree'.kind? (f node) = kind'
  intro hkind
  cases hkind with
  | none => rfl
  | some halike => rw [halike.eq]

/-- A node that is carried over keeps its name. -/
theorem nodeName_eq (h : Carries tree tree' root f) (hnode : tree.Reaches root node) :
    tree'.nodeName (f node) = tree.nodeName node := by
  rw [nodeName, nodeName, h.kind_eq hnode]

/-- A node that is carried over keeps its attributes. -/
theorem attribute?_eq (h : Carries tree tree' root f) (hnode : tree.Reaches root node) (name : String) :
    tree'.attribute? (f node) name = tree.attribute? node name := by
  rw [attribute?, attribute?, attributes?, attributes?, h.kind_eq hnode]

/-- A node that is carried over keeps its class tokens. -/
theorem hasClass_eq (h : Carries tree tree' root f) (hnode : tree.Reaches root node) (name : String) :
    tree'.hasClass (f node) name = tree.hasClass node name := by
  rw [hasClass, hasClass, classes, classes, attributeValue, attributeValue, h.attribute?_eq hnode]

/-- The map that moves nothing carries what lies below a root over into the same tree. -/
theorem refl (tree : Tree) (root : NodeId) : Carries tree tree root id where
  kind _ := NodeKind.rel_refl _
  children _ := (List.map_id _).symm

end Carries

end Tree

end TreeQuery
