import Mathlib
import RubyIndex.Proofs.Syntax.Shape
import RubyIndex.Syntax.Definition

/-! # What nodes are made of

The children of a node stand in an order that the kind of the node allows, whether or not the text
has errors. What may be missing is optional in the production of the node; what is always there is
found by whoever reads the node.

* `NodeKind.production` gives the labels that the children of a node may have, as a language.
* `Produced` nodes have children that their production allows.
* `Site.Readable` says what is always read off a node, and `Site.readable_of_produced` that it is
  read off nodes that are produced. -/

namespace RubyIndex.Syntax

open scoped Computability

/-! ## Languages of labels -/

namespace Labels

/-- One token of a kind in the given class. -/
def tokensAmong (accepts : TokenKind → Bool) : Language Label :=
  {labels | ∃ kind, accepts kind = true ∧ labels = [.token kind]}

/-- One token of the given kind. -/
def aToken (kind : TokenKind) : Language Label := tokensAmong (· == kind)

/-- One node of the given kind. -/
def aNode (kind : NodeKind) : Language Label := {[.node kind]}

/-- Whitespace within a line, if there is any. -/
def blanks : Language Label := (aToken .whitespace)∗

/-- What may be missing. -/
def perhaps (part : Language Label) : Language Label := 1 + part

/-- One part of an expression: any token, or a construct that is nested in the expression. -/
def element : Language Label := tokensAmong (fun _ => true) + aNode .block + aNode .methodDef

/-- The tokens that a block can begin with. -/
def opensNested (kind : TokenKind) : Bool :=
  kind.opensBlock || kind == .doKw || kind == .classKw

/-- The superclass in the header of a class. -/
def superclassClause : Language Label :=
  blanks * aToken .lt * blanks * aNode .superclass

/-- The parameters of a method, in parentheses or behind whitespace. -/
def parameterClause : Language Label :=
  aNode .paramList + aToken .whitespace * blanks * aNode .paramList

/-- The body of a method behind a `=`, or its body with the `end`. -/
def methodEnd : Language Label :=
  blanks * aToken .eq * blanks * aNode .body + aNode .body * perhaps (aToken .endKw)

/-- The tokens of the name of a method. -/
def methodNameForm : Language Label :=
  perhaps ((aToken .ident + aToken .const) * perhaps (aToken .eq) +
    aToken .leftBracket * perhaps (aToken .rightBracket) * perhaps (aToken .eq) +
    tokensAmong (fun kind => kind.isOperatorName || kind.isKeyword))

end Labels

open Labels

/-- **The production of a node.** The labels of its children in their order. Of the nodes that are
runs of tokens and statements nothing is said. -/
def NodeKind.production : NodeKind → Language Label
  | .moduleDef =>
      aToken .moduleKw * blanks * perhaps (aNode .constPath) * aNode .body *
        perhaps (aToken .endKw)
  | .classDef =>
      aToken .classKw * blanks * perhaps (aNode .constPath) * perhaps superclassClause *
        aNode .body * perhaps (aToken .endKw)
  | .methodDef =>
      aToken .defKw * blanks * perhaps (aNode .singleton) * aNode .methodName *
        perhaps parameterClause * methodEnd
  | .assign =>
      aNode .varField * blanks * aToken .eq *
        (tokensAmong fun kind => kind == .whitespace || kind == .newline)∗ * aNode .expr
  | .varField => tokensAmong TokenKind.isVariable
  | .block => tokensAmong opensNested * element∗ * aNode .body * perhaps (aToken .endKw)
  | .methodName => methodNameForm
  | .constPath =>
      perhaps (aToken .colonColon) * perhaps (aToken .const) *
        (aToken .colonColon * aToken .const)∗
  | _ => ⊤

/-- The nodes that have a body. -/
def NodeKind.hasBody : NodeKind → Bool
  | .moduleDef | .classDef | .methodDef | .block => true
  | _ => false

/-- **A produced node** has children that its production allows. -/
def Produced (kind : NodeKind) (children : List Tree) : Prop :=
  children.map Tree.label ∈ kind.production

/-! ## What every word of a language mentions -/

namespace Labels

/-- Every word of a language has the label in it. -/
def Mentions (language : Language Label) (label : Label) : Prop :=
  ∀ labels ∈ language, label ∈ labels

variable {language other : Language Label} {label : Label}

theorem mentions_aNode (kind : NodeKind) : Mentions (aNode kind) (.node kind) := by
  rintro labels rfl
  exact List.mem_singleton_self _

theorem Mentions.mul_right (hlanguage : Mentions language label) (other : Language Label) :
    Mentions (language * other) label := by
  intro labels hlabels
  obtain ⟨front, hfront, back, -, rfl⟩ := Language.mem_mul.1 hlabels
  exact List.mem_append_left _ (hlanguage front hfront)

theorem Mentions.mul_left (hlanguage : Mentions language label) (other : Language Label) :
    Mentions (other * language) label := by
  intro labels hlabels
  obtain ⟨front, -, back, hback, rfl⟩ := Language.mem_mul.1 hlabels
  exact List.mem_append_right _ (hlanguage back hback)

theorem Mentions.add (hlanguage : Mentions language label) (hother : Mentions other label) :
    Mentions (language + other) label := by
  intro labels hlabels
  rcases (Language.mem_add _ _ _).1 hlabels with hfirst | hsecond
  · exact hlanguage labels hfirst
  · exact hother labels hsecond

/-- Every word of a language begins with the label. -/
def BeginsWith (language : Language Label) (label : Label) : Prop :=
  ∀ labels ∈ language, ∃ rest, labels = label :: rest

theorem beginsWith_aNode (kind : NodeKind) : BeginsWith (aNode kind) (.node kind) := by
  rintro labels rfl
  exact ⟨[], rfl⟩

theorem BeginsWith.mul (hlanguage : BeginsWith language label) (other : Language Label) :
    BeginsWith (language * other) label := by
  intro labels hlabels
  obtain ⟨front, hfront, back, -, rfl⟩ := Language.mem_mul.1 hlabels
  obtain ⟨rest, rfl⟩ := hlanguage front hfront
  exact ⟨rest ++ back, rfl⟩

/-- The body of a construct cannot be missing. -/
theorem mentions_body {kind : NodeKind} (hkind : kind.hasBody = true) :
    Mentions kind.production (.node .body) := by
  have hclosed : ∀ front : Language Label,
      Mentions (front * aNode .body * perhaps (aToken .endKw)) (.node .body) :=
    fun front => ((mentions_aNode .body).mul_left front).mul_right _
  cases kind with
  | moduleDef => exact hclosed _
  | classDef => exact hclosed _
  | block => exact hclosed _
  | methodDef =>
    refine Mentions.mul_left (.add ?_ ?_) _
    · exact (mentions_aNode .body).mul_left _
    · exact (mentions_aNode .body).mul_right _
  | _ => cases hkind

/-! ## Words of tokens -/

/-- Words of tokens that are neither blanks nor comments. -/
def meaningful : Language Label := (tokensAmong fun kind => !kind.isTrivia)∗

theorem tokensAmong_le_meaningful {accepts : TokenKind → Bool}
    (haccepts : ∀ kind, accepts kind = true → kind.isTrivia = false) :
    tokensAmong accepts ≤ meaningful := by
  refine le_trans ?_ le_kstar
  rintro labels ⟨kind, hkind, rfl⟩
  exact ⟨kind, by simp [haccepts kind hkind], rfl⟩

theorem aToken_le_meaningful {kind : TokenKind} (hkind : kind.isTrivia = false) :
    aToken kind ≤ meaningful :=
  tokensAmong_le_meaningful fun found hfound => by
    obtain rfl := eq_of_beq hfound
    exact hkind

theorem perhaps_le_meaningful (hlanguage : language ≤ meaningful) :
    perhaps language ≤ meaningful :=
  add_le one_le_kstar hlanguage

theorem mul_le_meaningful (hlanguage : language ≤ meaningful) (hother : other ≤ meaningful) :
    language * other ≤ meaningful :=
  (mul_le_mul' hlanguage hother).trans (kstar_mul_kstar _).le

/-- The names of modules and classes have neither blanks nor comments in them. -/
theorem production_constPath_le : NodeKind.constPath.production ≤ meaningful := by
  have hcolons : aToken .colonColon ≤ meaningful := aToken_le_meaningful rfl
  have hconst : aToken .const ≤ meaningful := aToken_le_meaningful rfl
  refine mul_le_meaningful (mul_le_meaningful (perhaps_le_meaningful hcolons)
    (perhaps_le_meaningful hconst)) ?_
  exact (kstar_mono (mul_le_meaningful hcolons hconst)).trans (kstar_idem _).le

/-- The names of methods have neither blanks nor comments in them. -/
theorem production_methodName_le : NodeKind.methodName.production ≤ meaningful := by
  have hsetter : perhaps (aToken .eq) ≤ meaningful :=
    perhaps_le_meaningful (aToken_le_meaningful rfl)
  refine perhaps_le_meaningful (add_le (add_le ?_ ?_) ?_)
  · exact mul_le_meaningful (add_le (aToken_le_meaningful rfl) (aToken_le_meaningful rfl)) hsetter
  · exact mul_le_meaningful (mul_le_meaningful (aToken_le_meaningful rfl)
      (perhaps_le_meaningful (aToken_le_meaningful rfl))) hsetter
  · refine tokensAmong_le_meaningful fun kind hkind => ?_
    revert hkind
    cases kind <;> decide

end Labels

namespace Tree

/-- The tokens of trees that are tokens of some kinds are of these kinds. -/
theorem accepts_of_mem_leavesOf {accepts : TokenKind → Prop} {trees : List Tree}
    (htrees : ∀ tree ∈ trees, ∃ kind, accepts kind ∧ tree.label = .token kind) {token : Token}
    (hmem : token ∈ leavesOf trees) : accepts token.kind := by
  induction trees with
  | nil => cases hmem
  | cons tree rest ih =>
    obtain ⟨kind, hkind, hlabel⟩ := htrees tree List.mem_cons_self
    cases tree with
    | node => cases hlabel
    | leaf first =>
      rw [leavesOf, leaves, List.singleton_append, List.mem_cons] at hmem
      rcases hmem with rfl | hrest
      · obtain rfl := Label.token.inj hlabel
        exact hkind
      · exact ih (fun later hlater => htrees later (List.mem_cons_of_mem _ hlater)) hrest

/-- Trees whose labels are meaningful tokens are those tokens. -/
theorem meaningful_of_mem_leavesOf {trees : List Tree}
    (hlabels : trees.map label ∈ meaningful) {token : Token} (hmem : token ∈ leavesOf trees) :
    token.kind.isTrivia = false := by
  -- a word of the closure is one accepted token after the other
  have hkinds : ∀ tree ∈ trees, ∃ kind : TokenKind, kind.isTrivia = false ∧
      tree.label = .token kind := by
    intro tree htree
    obtain ⟨words, hwords, haccepted⟩ := Language.mem_kstar.1 hlabels
    have hlabel : tree.label ∈ words.flatten := hwords ▸ List.mem_map_of_mem htree
    obtain ⟨word, hword, hin⟩ := List.mem_flatten.1 hlabel
    obtain ⟨kind, hkind, rfl⟩ := haccepted word hword
    exact ⟨kind, by simpa using hkind, List.mem_singleton.1 hin⟩
  exact accepts_of_mem_leavesOf hkinds hmem

/-- A node whose label is there is found. -/
theorem exists_firstNode_of_mem {kind : NodeKind} {trees : List Tree}
    (hmem : Label.node kind ∈ trees.map label) :
    ∃ children, firstNode? kind trees = some children := by
  obtain ⟨tree, htree, hlabel⟩ := List.mem_map.1 hmem
  cases tree with
  | leaf token => cases hlabel
  | node found children =>
    obtain rfl := Label.node.inj hlabel
    exact Option.isSome_iff_exists.1 (hasNode_of_mem htree)

variable {allows requires : NodeKind → List Tree → Prop}

mutual

/-- What a node requires may follow from what it and the nodes below it allow. -/
theorem EveryNode.imp
    (himp : ∀ kind children, allows kind children → EveryNodeOf allows children →
      requires kind children) {tree : Tree} (hnodes : tree.EveryNode allows) :
    tree.EveryNode requires := by
  cases tree with
  | leaf token => trivial
  | node kind children =>
    exact ⟨himp kind children hnodes.1 hnodes.2, EveryNodeOf.imp himp hnodes.2⟩

theorem EveryNodeOf.imp
    (himp : ∀ kind children, allows kind children → EveryNodeOf allows children →
      requires kind children) {trees : List Tree} (hnodes : EveryNodeOf allows trees) :
    EveryNodeOf requires trees := by
  cases trees with
  | nil => trivial
  | cons tree rest => exact ⟨hnodes.1.imp himp, hnodes.2.imp himp⟩

end

end Tree

/-! ## What is read off a node -/

/-- **A readable node.** Its children are as its production allows, and what its readers ask for is
there: the variable and the value of an assignment, the name of a variable, the body of a construct.
Names have neither blanks nor comments in them. -/
structure Site.Readable (site : Site) : Prop where
  produced : Produced site.kind site.children
  /-- An assignment has a variable on its left. -/
  target : site.kind = .assign →
    ∃ token, site.target? = some token ∧ token.kind.isVariable = true
  /-- An assignment has a value on its right. -/
  value : site.kind = .assign → ∃ value, site.value? = some value
  /-- A variable is one token, and it is the name of the variable. -/
  variableName : site.kind = .varField → ∃ token, site.children = [.leaf token] ∧
    (Tree.tokensOf site.children).find? (·.kind.isVariable) = some token
  /-- A construct has a body. -/
  body : site.kind.hasBody = true → ∃ kinds, site.bodyKinds? = some kinds
  /-- Names are tokens that carry a meaning. -/
  name : site.kind = .constPath ∨ site.kind = .methodName →
    ∀ token ∈ Tree.leavesOf site.children, token.kind.isTrivia = false

/-- A variable is one token. -/
theorem exists_of_produced_varField {children : List Tree}
    (hproduced : Produced .varField children) :
    ∃ token : Token, children = [.leaf token] ∧ token.kind.isVariable = true := by
  obtain ⟨kind, hkind, hlabels⟩ := hproduced
  obtain ⟨tree, rfl, hlabel⟩ := List.map_eq_singleton_iff.1 hlabels
  cases tree with
  | node => cases hlabel
  | leaf token =>
    obtain rfl := Label.token.inj hlabel
    exact ⟨token, rfl, hkind⟩

/-- An assignment begins with its variable. -/
theorem exists_of_produced_assign {children : List Tree} (hproduced : Produced .assign children) :
    ∃ inner rest, children = .node .varField inner :: rest := by
  have hbegins : BeginsWith NodeKind.assign.production (.node .varField) :=
    ((((beginsWith_aNode .varField).mul _).mul _).mul _).mul _
  obtain ⟨back, hlabels⟩ := hbegins _ hproduced
  cases children with
  | nil => cases hlabels
  | cons tree rest =>
    have hlabel : tree.label = .node .varField := (List.cons.inj hlabels).1
    cases tree with
    | leaf token => cases hlabel
    | node kind inner =>
      obtain rfl := Label.node.inj hlabel
      exact ⟨inner, rest, rfl⟩

/-- A block begins with its opener. -/
theorem exists_of_produced_block {children : List Tree} (hproduced : Produced .block children) :
    ∃ (opener : Token) (rest : List Tree), children = .leaf opener :: rest ∧
      opensNested opener.kind = true := by
  obtain ⟨_, hmost, _, -, hlabels⟩ := Language.mem_mul.1 hproduced
  obtain ⟨_, hheader, _, -, rfl⟩ := Language.mem_mul.1 hmost
  obtain ⟨_, ⟨kind, hkind, rfl⟩, _, -, rfl⟩ := Language.mem_mul.1 hheader
  cases children with
  | nil => cases hlabels
  | cons tree rest =>
    have hlabel : .token kind = tree.label := (List.cons.inj hlabels).1
    cases tree with
    | node => cases hlabel
    | leaf token =>
      obtain rfl := Label.token.inj hlabel
      exact ⟨token, rest, rfl, hkind⟩

/-- **Nodes that are produced are readable**, if those below them are produced. -/
theorem Site.readable_of_produced {site : Site} (hproduced : Produced site.kind site.children)
    (hbelow : Tree.EveryNodeOf Produced site.children) : site.Readable := by
  obtain ⟨place, kind, children⟩ := site
  refine ⟨hproduced, ?_, ?_, ?_, fun hkind => ?_, fun hkind token hmem => ?_⟩
  · rintro rfl
    obtain ⟨inner, rest, rfl⟩ := exists_of_produced_assign hproduced
    obtain ⟨token, rfl, hvariable⟩ := exists_of_produced_varField hbelow.1.1
    refine ⟨token, ?_, hvariable⟩
    simp [Site.target?, Site.child?, Tree.firstNode?, Tree.tokensOf, Tree.token?, hvariable]
  · rintro rfl
    obtain ⟨inner, hinner⟩ := Tree.exists_firstNode_of_mem
      ((mentions_aNode .expr).mul_left _ _ hproduced)
    exact ⟨_, congrArg (Option.map Tree.textOf) hinner⟩
  · rintro rfl
    obtain ⟨token, rfl, hvariable⟩ := exists_of_produced_varField hproduced
    exact ⟨token, rfl, by simp [Tree.tokensOf, Tree.token?, hvariable]⟩
  · obtain ⟨inner, hinner⟩ := Tree.exists_firstNode_of_mem (mentions_body hkind _ hproduced)
    exact ⟨_, congrArg (Option.map Tree.nodeKindsOf) hinner⟩
  · refine Tree.meaningful_of_mem_leavesOf ?_ hmem
    rcases hkind with rfl | rfl
    · exact production_constPath_le hproduced
    · exact production_methodName_le hproduced

end RubyIndex.Syntax
