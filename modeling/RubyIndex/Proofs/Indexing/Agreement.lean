import RubyIndex.Proofs.Indexing.Headers
import RubyIndex.Proofs.Indexing.Visits

/-! # Contexts agree with the nodes above

Indexing decides with the context that it hands down, and the declarations of a tree are read off
the nodes above. The two agree at the top level of a file, and entering a body keeps them in
agreement.

* `Agrees` relates a context to the nodes above a place.
* `Agrees.mono` and `Agrees.inside` carry it on where the context stays the same.
* `enterFile_makes`, `enterNamespace_makes` and `enterMethod_makes` are the contexts that are
  entered. -/

namespace RubyIndex.Indexing

open Syntax Edit Registry

/-! ## Contexts and the nodes above -/

/-- **Agreement.** The context of a place and the nodes above it tell the same: the namespace
around the place, whether the nearest definition is a method, and what `self` means. -/
structure Agrees (registry : Registry) (context : Context) (place : Place) (above : List Node) :
    Prop where
  enclosing : ∃ object, registry.get? context.enclosing = some object ∧
    object.isNamespace = true ∧ object.path = enclosingPath above
  owner : ∃ object, registry.get? context.owner = some object ∧
    object.kind = if (enclosingReceiver? above).isSome then .method else .namespace
  receiver : context.receiver = (enclosingReceiver? above).getD .theNamespace
  scope : context.scope.index < registry.scopes.size
  singleton : place.inSingletonClass = inSingletonBlock above

variable {registry changed : Registry} {context : Context} {place : Place} {above : List Node}

namespace Agrees

/-- Agreement lasts while the registry grows. -/
theorem mono (hagrees : Agrees registry context place above)
    (hextends : registry.Extends changed) : Agrees changed context place above := by
  obtain ⟨enclosing, henclosing, hnamespace, hpath⟩ := hagrees.enclosing
  obtain ⟨owner, howner, hkind⟩ := hagrees.owner
  obtain ⟨laterEnclosing, hlaterEnclosing, halike⟩ := hextends.objects henclosing
  obtain ⟨laterOwner, hlaterOwner, halikeOwner⟩ := hextends.objects howner
  exact ⟨⟨laterEnclosing, hlaterEnclosing, halike.isNamespace.trans hnamespace,
      halike.path.trans hpath⟩,
    ⟨laterOwner, hlaterOwner, halikeOwner.kind.trans hkind⟩, hagrees.receiver,
    Nat.lt_of_lt_of_le hagrees.scope hextends.scopes, hagrees.singleton⟩

/-- Agreement does not depend on the trees before a place. -/
theorem after (hagrees : Agrees registry context place above) (tree : Tree) :
    Agrees registry context (place.after tree) above :=
  ⟨hagrees.enclosing, hagrees.owner, hagrees.receiver, hagrees.scope, hagrees.singleton⟩

/-- Inside a node that defines nothing the context stays the same. -/
theorem inside (hagrees : Agrees registry context place above) {kind : NodeKind}
    (hkind : kind.isDefinition = false) (children : List Tree) :
    Agrees registry context (place.inside kind children) (⟨kind, children⟩ :: above) := by
  have hpath : enclosingPath (⟨kind, children⟩ :: above) = enclosingPath above := by
    cases kind <;> first | rfl | cases hkind
  have hreceiver : enclosingReceiver? (⟨kind, children⟩ :: above) = enclosingReceiver? above := by
    cases kind <;> first | rfl | cases hkind
  refine ⟨by rw [hpath]; exact hagrees.enclosing, by rw [hreceiver]; exact hagrees.owner,
    by rw [hreceiver]; exact hagrees.receiver, hagrees.scope, ?_⟩
  -- a node that is no definition is one more to look for `class <<` in
  simp only [Place.inside, hkind, inSingletonBlock, List.takeWhile_cons, Bool.not_false, if_true,
    List.any_cons, Bool.false_eq_true, if_false]
  rw [hagrees.singleton, Bool.or_comm]
  rfl

/-- Whether the nearest definition is a method shows in the owner. -/
theorem isMethod_owner (hagrees : Agrees registry context place above) :
    (registry.get? context.owner).any (·.isMethod) = (enclosingReceiver? above).isSome := by
  obtain ⟨owner, howner, hkind⟩ := hagrees.owner
  rw [howner, Option.any_some, CodeObject.isMethod, hkind]
  cases (enclosingReceiver? above).isSome <;> rfl

/-- Whether the nearest definition is a namespace, or there is none, shows in the owner. -/
theorem isNamespace_owner (hagrees : Agrees registry context place above) :
    (registry.get? context.owner).any (·.isNamespace) = (enclosingReceiver? above).isNone := by
  obtain ⟨owner, howner, hkind⟩ := hagrees.owner
  rw [howner, Option.any_some, CodeObject.isNamespace, hkind]
  cases enclosingReceiver? above <;> rfl

/-- A method is called on what the nodes above say. -/
theorem receiver_eq (hagrees : Agrees registry context place above) (kind : NodeKind)
    (children : List Tree) :
    (if (⟨place, kind, children⟩ : Site).isSingleton then Receiver.theNamespace
      else .anInstance) = methodReceiver above ⟨kind, children⟩ := by
  rw [Site.isSingleton, methodReceiver, hagrees.singleton]

/-- A qualified name starts under the root or under the enclosing namespace. -/
theorem outermost (hagrees : Agrees registry context place above) (hsound : registry.Sound)
    (name : ConstName) :
    ∃ outer, registry.get? (if name.absolute then .root else context.enclosing) = some outer ∧
      outer.isNamespace = true ∧ outer.path = outermostPath (enclosingPath above) name := by
  unfold outermostPath
  split
  · obtain ⟨root, hroot, -, hpath, hnamespace⟩ := hsound.root
    exact ⟨root, hroot, hnamespace, hpath⟩
  · exact hagrees.enclosing

end Agrees

/-! ## Entering bodies -/

/-- The top level of a file. -/
theorem enterFile_makes (hsound : registry.Sound) (file : String) (children : List Tree) :
    (Context.enterFile file).Makes registry []
      fun context changed => context.file = file ∧
        Agrees changed context .root [⟨.sourceFile, children⟩] := by
  obtain ⟨root, hroot, -, hpath, hnamespace⟩ := hsound.root
  have hanchor : registry.checkAnchor (.namespace .root) = .ok () := by
    rw [checkAnchor, namespaceAt_eq_ok_iff.2 ⟨hroot, hnamespace⟩]
    rfl
  refine (hsound.newLocalScope_makes none hroot hnamespace hanchor).bind_pure ?_
  intro scope changed hrecords hscope
  obtain ⟨laterRoot, hlater, halike⟩ := hrecords.extending.objects hroot
  have hlaterNamespace := halike.isNamespace.trans hnamespace
  exact ⟨rfl, ⟨laterRoot, hlater, hlaterNamespace, halike.path.trans hpath⟩,
    ⟨laterRoot, hlater, eq_of_beq hlaterNamespace⟩, rfl, hscope, rfl⟩

/-- The body of a namespace, whose node is the nearest one above. -/
theorem enterNamespace_makes (hsound : registry.Sound) (context : Context) (place : Place)
    (above : List Node) (node : Node) {entered : ObjectId} {object : CodeObject}
    (hentered : registry.get? entered = some object) (hnamespace : object.isNamespace = true)
    (hkind : node.kind = .moduleDef ∨ node.kind = .classDef)
    (hpath : object.path = enclosingPath (node :: above)) :
    (context.enterNamespace entered).Makes registry []
      fun inner changed => inner.file = context.file ∧
        Agrees changed inner (place.inside node.kind node.children) (node :: above) := by
  have hanchor : registry.checkAnchor (.namespace entered) = .ok () := by
    rw [checkAnchor, namespaceAt_eq_ok_iff.2 ⟨hentered, hnamespace⟩]
    rfl
  refine (hsound.newLocalScope_makes none hentered hnamespace hanchor).bind_pure ?_
  intro scope changed hrecords hscope
  -- the namespace is still there with the scope, at the same path
  obtain ⟨later, hlater, halike⟩ := hrecords.extending.objects hentered
  have hlaterNamespace := halike.isNamespace.trans hnamespace
  have hreceiver : enclosingReceiver? (node :: above) = none :=
    enclosingReceiver?_cons_of_namespace above node hkind
  refine ⟨rfl, ⟨later, hlater, hlaterNamespace, halike.path.trans hpath⟩,
    ⟨later, hlater, ?_⟩, ?_, hscope, ?_⟩
  · rw [hreceiver]
    exact eq_of_beq hlaterNamespace
  · rw [hreceiver]
    rfl
  · simp [Place.inside, inSingletonBlock, isDefinition_of_namespace node hkind]

/-- The body of a method, whose node is the nearest one above. -/
theorem enterMethod_makes (hsound : registry.Sound)
    (hagrees : Agrees registry context place above) {method : ObjectId} {object : CodeObject}
    (hmethod : registry.get? method = some object) (hkind : object.kind = .method)
    (name : String) (children : List Tree) :
    (context.enterMethod method name (methodReceiver above ⟨.methodDef, children⟩)).Makes
      registry [] fun inner changed => inner.file = context.file ∧
        Agrees changed inner (place.inside .methodDef children)
          (⟨.methodDef, children⟩ :: above) := by
  obtain ⟨enclosing, henclosing, hnamespace, hpath⟩ := hagrees.enclosing
  have hanchor : registry.checkAnchor (.scope context.scope) = .ok () := by
    rw [checkAnchor, if_pos (isSome_scope?_iff.2 hagrees.scope)]
  refine (hsound.newLocalScope_makes (some name) henclosing hnamespace hanchor).bind_pure ?_
  intro scope changed hrecords hscope
  obtain ⟨laterEnclosing, hlaterEnclosing, halike⟩ := hrecords.extending.objects henclosing
  obtain ⟨later, hlater, halikeMethod⟩ := hrecords.extending.objects hmethod
  exact ⟨rfl, ⟨laterEnclosing, hlaterEnclosing, halike.isNamespace.trans hnamespace,
    halike.path.trans hpath⟩, ⟨later, hlater, halikeMethod.kind.trans hkind⟩, rfl, hscope, rfl⟩

end RubyIndex.Indexing
