import RubyIndex.Proofs.Syntax.ChildNodes
import RubyIndex.Proofs.Syntax.LineBreaks
import RubyIndex.Proofs.Syntax.Openings

/-! # Where doc comments stand

A doc comment is read off the trees before a node, back to the start of its parent. A comment is
taken if only blanks stand before it, up to a line break or to that start. Where it is the start of
the text, or a line break was found, the comment has a line of its own. Otherwise it is the first
token of its parent, blanks aside, and the parent is a body: the comment trails the header of a
construct.

* `Text.StartsLine` says that what stands at a byte offset is the first on its line.
* `Site.commentTokens` are the comments that are read above a node, with their byte offsets.
* `Site.docComment?_of_mem_sites` is the result for the nodes of a text. -/

namespace RubyIndex

open Syntax

/-! ## Lines -/

namespace Text

/-- Whether nothing but blanks stands behind the last line break of a text. -/
def endsAtIndent (text : List Char) : Bool :=
  (text.reverse.takeWhile (· != '\n')).all isIndent

/-- **The start of a line**: at a byte offset of a text, nothing but blanks stands before on the
line. -/
def StartsLine (whole : String) (offset : Nat) : Prop :=
  ∃ front back, whole = front ++ back ∧ front.utf8ByteSize = offset ∧
    endsAtIndent front.toList = true

/-- Blanks go on with the indent of a line. -/
theorem endsAtIndent_append {text blanks : List Char} (htext : endsAtIndent text = true)
    (hblanks : blanks.all isIndent = true) : endsAtIndent (text ++ blanks) = true := by
  have hline : ∀ character ∈ blanks.reverse, (character != '\n') = true := by
    intro character hmem
    have hblank := List.all_eq_true.1 hblanks character (List.mem_reverse.1 hmem)
    rw [bne_iff_ne]
    rintro rfl
    exact absurd hblank (by decide)
  rw [endsAtIndent, List.reverse_append, List.takeWhile_append_of_pos hline, List.all_append,
    List.all_reverse, hblanks, Bool.true_and]
  exact htext

/-- A line begins behind a line break. -/
theorem endsAtIndent_append_newline (text : List Char) :
    endsAtIndent (text ++ ['\n']) = true := by
  rw [endsAtIndent, List.reverse_append]
  rfl

/-- A line break ends a line. -/
theorem endsAtIndent_append_lineBreak {token : Token} (hlexed : token.Lexed)
    (hkind : token.kind = .newline) (text : List Char) :
    endsAtIndent (text ++ token.text.toList) = true := by
  rcases hlexed.newline hkind with hfeed | hreturn
  · rw [hfeed]
    exact endsAtIndent_append_newline text
  · rw [hreturn, List.append_cons]
    exact endsAtIndent_append_newline _

/-- Whitespace goes on with the indent of a line, or it joins it with the next one. -/
theorem endsAtIndent_append_charsOf {text : List Char} {blanks : List Token}
    (htext : endsAtIndent text = true)
    (hblanks : ∀ token ∈ blanks, token.Lexed ∧ token.kind = .whitespace) :
    endsAtIndent (text ++ Token.charsOf blanks) = true := by
  induction blanks generalizing text with
  | nil => rwa [Token.charsOf, List.flatMap_nil, List.append_nil]
  | cons token rest ih =>
    rw [Token.charsOf, List.flatMap_cons, ← List.append_assoc]
    refine ih ?_ fun later hlater => hblanks later (List.mem_cons_of_mem _ hlater)
    obtain ⟨hlexed, hkind⟩ := hblanks token List.mem_cons_self
    rcases hlexed.whitespace hkind with hall | ⟨front, hfront⟩
    · exact endsAtIndent_append htext hall
    · rw [hfront, ← List.append_assoc]
      exact endsAtIndent_append_newline _

end Text

namespace Syntax

/-! ## Tokens in a text -/

section Tokens

variable {source : String} {front back : List Token} {token : Token}
  (htokens : Token.tokenize source = front ++ token :: back)

include htokens

/-- A token stands where those before it end. -/
theorem Token.standsAt : Text.StandsAt source token.text (Token.totalWidth front)
    (Token.totalWidth front + token.width) := by
  rw [List.append_cons] at htokens
  have htext : String.join ([token].map (·.text)) = token.text := by simp
  have hstands := Token.standsAt_join htokens
  rwa [htext, Token.totalWidth, Token.totalWidth, Nat.add_zero] at hstands

/-- The tokens before a token of a text are lexed. -/
theorem Token.lexed_of_mem_front {other : Token} (hmem : other ∈ front) : other.Lexed :=
  Token.lexed_of_mem_tokenize (htokens ▸ List.mem_append_left _ hmem)

/-- A token stands at the start of a line if there are only blanks before it, up to there. -/
theorem Token.startsLine {line blanks : List Token} (hfront : front = line ++ blanks)
    (hline : Text.endsAtIndent (Token.charsOf line) = true)
    (hblanks : ∀ token ∈ blanks, token.kind = .whitespace) :
    Text.StartsLine source (Token.totalWidth front) := by
  refine ⟨String.join (front.map (·.text)), String.join ((token :: back).map (·.text)), ?_, ?_, ?_⟩
  · rw [← Token.join_text_append, ← htokens, Token.join_text_tokenize]
  · exact (Token.totalWidth_eq front).symm
  · rw [Token.toList_join_text, hfront, Token.charsOf, List.flatMap_append]
    refine Text.endsAtIndent_append_charsOf hline fun blank hmem => ⟨?_, hblanks blank hmem⟩
    exact Token.lexed_of_mem_front htokens (hfront ▸ List.mem_append_right _ hmem)

/-- Behind a line break and blanks a line starts. -/
theorem Token.startsLine_of_newline {line blanks : List Token} {newline : Token}
    (hfront : front = line ++ newline :: blanks) (hnewline : newline.kind = .newline)
    (hblanks : ∀ token ∈ blanks, token.kind = .whitespace) :
    Text.StartsLine source (Token.totalWidth front) := by
  have hlexed : newline.Lexed :=
    Token.lexed_of_mem_front htokens (hfront ▸ List.mem_append_right _ List.mem_cons_self)
  rw [List.append_cons] at hfront
  refine Token.startsLine htokens hfront ?_ hblanks
  rw [Token.charsOf, List.flatMap_append, List.flatMap_singleton]
  exact Text.endsAtIndent_append_lineBreak hlexed hnewline _

end Tokens

/-! ## The comments above a node -/

/-- The comments that are read off some trees, which are listed nearest first and end at a byte
offset, each with the offset where it starts. -/
def commentTokensAbove (atBreak : Bool) (stop : Nat) : List Tree → List (Nat × Token)
  | [] => []
  | .node _ _ :: _ => []
  | .leaf token :: before =>
      let start := stop - token.width
      match token.kind with
      | .whitespace => commentTokensAbove atBreak start before
      | .newline => if atBreak then [] else commentTokensAbove true start before
      | .comment =>
          if atLineStart before then (start, token) :: commentTokensAbove false start before
          else []
      | _ => []

/-- **The comments above a node**, with the byte offsets where they start. -/
def Site.commentTokens (site : Site) : List (Nat × Token) :=
  (commentTokensAbove false site.start site.place.preceding).reverse

/-- The comments are those whose texts are read. -/
theorem commentsAbove_eq_map (atBreak : Bool) (stop : Nat) (trees : List Tree) :
    commentsAbove atBreak trees =
      (commentTokensAbove atBreak stop trees).map (commentText ·.2.text) := by
  induction trees generalizing atBreak stop with
  | nil => rfl
  | cons tree before ih =>
    cases tree with
    | node kind children => rfl
    | leaf token =>
      rw [commentsAbove, commentTokensAbove]
      cases hkind : token.kind with
      | whitespace => exact ih atBreak _
      | newline =>
        dsimp only
        split
        · rfl
        · exact ih true _
      | comment =>
        dsimp only
        split
        · rw [List.map_cons, ← ih]
        · rfl
      | _ => rfl

/-- The doc comment of a node is made of the comments above it. -/
theorem Site.docComment?_eq (site : Site) :
    site.docComment? = commentBlock? (site.commentTokens.map (commentText ·.2.text)) := by
  rw [docComment?, commentTokens, List.map_reverse, commentsAbove_eq_map]

/-- A comment that is read is one of the trees, with only blanks before it on the line. -/
theorem exists_of_mem_commentTokensAbove {atBreak : Bool} {start stop offset : Nat}
    {trees : List Tree} {comment : Token} (hstop : stop = start + Tree.widthOf trees)
    (hmem : (offset, comment) ∈ commentTokensAbove atBreak stop trees) :
    ∃ nearer before, trees = nearer ++ .leaf comment :: before ∧ comment.kind = .comment ∧
      atLineStart before = true ∧ offset = start + Tree.widthOf before := by
  induction trees generalizing atBreak stop with
  | nil => cases hmem
  | cons tree before ih =>
    cases tree with
    | node kind children => cases hmem
    | leaf token =>
      have hstart : stop - token.width = start + Tree.widthOf before := by
        rw [hstop, Tree.widthOf, Tree.width]
        omega
      -- what is found further up is found behind this token
      have hfurther : ∀ {atBreak}, (offset, comment) ∈
          commentTokensAbove atBreak (stop - token.width) before →
            ∃ nearer further, Tree.leaf token :: before = nearer ++ .leaf comment :: further ∧
              comment.kind = .comment ∧ atLineStart further = true ∧
                offset = start + Tree.widthOf further := by
        intro atBreak hlater
        obtain ⟨nearer, further, rfl, hcomment⟩ := ih hstart hlater
        exact ⟨.leaf token :: nearer, further, rfl, hcomment⟩
      rw [commentTokensAbove] at hmem
      split at hmem
      · exact hfurther hmem
      · split at hmem
        · cases hmem
        · exact hfurther hmem
      · rename_i hkind
        split at hmem
        · rename_i hline
          rcases List.mem_cons.1 hmem with hsame | hlater
          · obtain ⟨rfl, rfl⟩ := Prod.mk.inj hsame
            exact ⟨[], before, rfl, hkind, hline, hstart⟩
          · exact hfurther hlater
        · cases hmem
      · cases hmem

/-- At the start of a line there are blanks, and before them there is a line break or nothing. -/
theorem exists_of_atLineStart {trees : List Tree} (hline : atLineStart trees = true) :
    ∃ blanks others, trees = blanks ++ others ∧
      (∀ tree ∈ blanks, tree.label = .token .whitespace) ∧
        (others = [] ∨ ∃ token further, others = .leaf token :: further ∧
          token.kind = .newline) := by
  fun_induction atLineStart trees with
  | case1 => exact ⟨[], [], rfl, fun _ hmem => absurd hmem List.not_mem_nil, .inl rfl⟩
  | case2 => cases hline
  | case3 token before hkind ih =>
    obtain ⟨blanks, others, rfl, hblanks, hothers⟩ := ih hline
    refine ⟨.leaf token :: blanks, others, rfl, fun tree hmem => ?_, hothers⟩
    rcases List.mem_cons.1 hmem with rfl | hlater
    · exact congrArg Label.token hkind
    · exact hblanks tree hlater
  | case4 token before hkind =>
    exact ⟨[], _, rfl, fun _ hmem => absurd hmem List.not_mem_nil, .inr ⟨token, before, rfl, hkind⟩⟩
  | case5 => cases hline

/-- A comment that a node opens with: only blanks stand between the start of the node and it. -/
def Site.OpensWithComment (site : Site) (offset : Nat) (comment : Token) : Prop :=
  ∃ blanks rest, site.children = blanks ++ .leaf comment :: rest ∧
    (∀ tree ∈ blanks, tree.label = .token .whitespace) ∧
      offset = site.start + Tree.widthOf blanks

/-! ## Comments in a text -/

/-- The order of trees does not change their width. -/
theorem Tree.widthOf_reverse (trees : List Tree) : widthOf trees.reverse = widthOf trees := by
  induction trees with
  | nil => rfl
  | cons tree rest ih =>
    rw [List.reverse_cons, widthOf_append, ih, widthOf, widthOf, widthOf, Nat.add_zero,
      Nat.add_comm]

/-- Tokens without a width have no characters. -/
theorem Token.charsOf_eq_nil {tokens : List Token} (hwidth : totalWidth tokens = 0) :
    charsOf tokens = [] := by
  rw [totalWidth_eq, String.utf8ByteSize_eq_zero_iff] at hwidth
  rw [← toList_join_text, hwidth]
  rfl

namespace Site

variable {source : String} {parent child : Site} {offset : Nat} {comment : Token}

/-- Only bodies and whole texts open with comments. -/
theorem OpensWithComment.kind_eq_body (hparent : parent ∈ (parse source).tree.sites)
    (hopens : parent.OpensWithComment offset comment) (hkind : comment.kind = .comment) :
    parent.kind = .body ∨ parent.start = 0 := by
  have htree : (parse source).tree = .node .sourceFile (parse source).tree.children := rfl
  rw [htree, Tree.sites, Tree.sitesFrom, List.mem_cons] at hparent
  rcases hparent with rfl | hinside
  · exact .inr rfl
  · obtain ⟨hbegins, -⟩ := (everyNode_beginsInCode source).of_mem_sitesOfFrom hinside
    refine .inl (hbegins.resolve_right fun hcode => ?_)
    obtain ⟨blanks, rest, hchildren, hblanks, -⟩ := hopens
    rw [hchildren] at hcode
    -- the first token is a blank or the comment
    cases blanks with
    | nil =>
      have htrivia := hcode comment rfl
      rw [hkind] at htrivia
      cases htrivia
    | cons tree others =>
      have hlabel := hblanks tree List.mem_cons_self
      cases tree with
      | node => cases hlabel
      | leaf token =>
        have htrivia := hcode token rfl
        rw [Label.token.inj hlabel] at htrivia
        cases htrivia

/-- **A comment above a node** stands in the text. It is the first on its line, or the node is in a
body that opens with it. -/
theorem startsLine_or_opensWithComment (hparent : parent ∈ (parse source).tree.sites)
    (hchild : child ∈ parent.childNodes) (hmem : (offset, comment) ∈ child.commentTokens) :
    comment.kind = .comment ∧ Text.StandsAt source comment.text offset (offset + comment.width) ∧
      (Text.StartsLine source offset ∨
        parent.kind = .body ∧ parent.OpensWithComment offset comment) := by
  obtain ⟨⟨after, hchildren⟩, hstart⟩ := children_eq_of_mem_childNodes hchild
  rw [Tree.widthOf_reverse] at hstart
  obtain ⟨nearer, before, hpreceding, hkind, hline, hoffset⟩ :=
    exists_of_mem_commentTokensAbove hstart (List.mem_reverse.1 hmem)
  obtain ⟨front, back, htokens, hparentStart⟩ := exists_tokens hparent
  rw [hpreceding, List.reverse_append, List.reverse_cons, List.append_assoc, List.append_assoc,
    List.singleton_append] at hchildren
  have hsplit : Token.tokenize source = (front ++ Tree.leavesOf before.reverse) ++
      comment :: (Tree.leavesOf (nearer.reverse ++ .node child.kind child.children :: after) ++
        back) := by
    rw [htokens, hchildren]
    simp [Tree.leavesOf, Tree.leaves]
  have hwidth : offset = Token.totalWidth (front ++ Tree.leavesOf before.reverse) := by
    rw [hoffset, hparentStart, Token.totalWidth_append, ← Tree.widthOf_eq_totalWidth,
      Tree.widthOf_reverse]
  refine ⟨hkind, hwidth ▸ Token.standsAt hsplit, ?_⟩
  obtain ⟨blanks, others, rfl, hblanks, hothers⟩ := exists_of_atLineStart hline
  have hlabels : ∀ tree ∈ blanks.reverse, tree.label = .token .whitespace :=
    fun tree htree => hblanks tree (List.mem_reverse.1 htree)
  have hkinds : ∀ tree ∈ blanks.reverse, ∃ kind, kind = TokenKind.whitespace ∧
      tree.label = .token kind := fun tree htree => ⟨_, rfl, hlabels tree htree⟩
  have hwhitespace : ∀ token ∈ Tree.leavesOf blanks.reverse, token.kind = .whitespace :=
    fun _ => Tree.accepts_of_mem_leavesOf hkinds
  rcases hothers with rfl | ⟨token, further, rfl, hnewline⟩
  · rw [List.append_nil] at hchildren hsplit hoffset hwidth
    have hopens : parent.OpensWithComment offset comment :=
      ⟨blanks.reverse, _, hchildren, hlabels, by rw [hoffset, Tree.widthOf_reverse]⟩
    rcases hopens.kind_eq_body hparent hkind with hbody | hzero
    · exact .inr ⟨hbody, hopens⟩
    · -- the parent starts the text
      have hnone : Token.charsOf front = [] :=
        Token.charsOf_eq_nil (hparentStart.symm.trans hzero)
      exact .inl (hwidth ▸ Token.startsLine hsplit rfl (by rw [hnone]; rfl) hwhitespace)
  · have hleaves : front ++ Tree.leavesOf (blanks ++ .leaf token :: further).reverse =
        (front ++ Tree.leavesOf further.reverse) ++ token :: Tree.leavesOf blanks.reverse := by
      simp [Tree.leavesOf, Tree.leaves]
    exact .inl (hwidth ▸ Token.startsLine_of_newline hsplit hleaves hnewline hwhitespace)

/-- **Doc comments and the code before them.** The doc comment of a node is made of the comments
above it. Each of them stands in the text. It is the first on its line, or else the node is in a
body that opens with the comment, which then trails the header of a construct. -/
theorem docComment?_of_mem_sites {site : Site} (hmem : site ∈ (parse source).tree.sites) :
    site.docComment? = commentBlock? (site.commentTokens.map (commentText ·.2.text)) ∧
      ∀ offset comment, (offset, comment) ∈ site.commentTokens →
        comment.kind = .comment ∧
          Text.StandsAt source comment.text offset (offset + comment.width) ∧
            (Text.StartsLine source offset ∨
              ∃ body ∈ (parse source).tree.sites, body.kind = .body ∧ site ∈ body.childNodes ∧
                body.OpensWithComment offset comment) := by
  refine ⟨site.docComment?_eq, fun offset comment hcomment => ?_⟩
  rcases Tree.exists_parent_of_mem_sites hmem with ⟨-, hplace⟩ | ⟨parent, hparent, hchild⟩
  · -- nothing stands before the root
    rw [commentTokens, hplace] at hcomment
    cases hcomment
  · obtain ⟨hkind, hstands, hline⟩ := startsLine_or_opensWithComment hparent hchild hcomment
    refine ⟨hkind, hstands, hline.imp_right fun ⟨hbody, hopens⟩ => ?_⟩
    exact ⟨parent, hparent, hbody, hchild, hopens⟩

/-- A comment behind the name of a module, and one with a line of its own. -/
theorem docComment?_of_mem_sites_module :
    let source := "module A # b\n  # c\n  def x\n  end\nend\n"
    ∃ site ∈ (parse source).tree.sites, site.docComment? = some "b\nc" ∧
      ∃ offset comment, (offset, comment) ∈ site.commentTokens ∧ comment.text = "# c" ∧
        (Text.StartsLine source offset ∨
          ∃ body ∈ (parse source).tree.sites, body.kind = .body ∧ site ∈ body.childNodes ∧
            body.OpensWithComment offset comment) := by
  intro source
  obtain ⟨site, hmem, hdoc, hlisted⟩ : ∃ site ∈ (parse source).tree.sites,
      site.docComment? = some "b\nc" ∧ (15, ⟨.comment, "# c"⟩) ∈ site.commentTokens := by
    decide +kernel
  obtain ⟨-, hcomments⟩ := docComment?_of_mem_sites hmem
  exact ⟨site, hmem, hdoc, 15, _, hlisted, rfl, (hcomments 15 _ hlisted).2.2⟩

/-- A comment behind the name of a module becomes the doc comment of the first definition in it. -/
theorem docComment?_trailing :
    let source := "module A # c\n  def x\n  end\nend"
    ¬ Text.StartsLine source 9 ∧
      ∃ site ∈ (parse source).tree.sites, site.kind = .methodDef ∧
        site.docComment? = some "c" ∧ site.commentTokens = [(9, ⟨.comment, "# c"⟩)] := by
  intro source
  refine ⟨?_, by decide +kernel⟩
  rintro ⟨front, back, hsource, hsize, hindent⟩
  have hfront : Text.StandsAt source front 0 9 :=
    ⟨"", back, by rw [hsource, String.empty_append], rfl, by rw [hsize]⟩
  have hheader : Text.StandsAt source "module A " 0 9 :=
    ⟨"", "# c\n  def x\n  end\nend", by decide, rfl, by decide⟩
  obtain rfl := hfront.unique hheader
  exact absurd hindent (by decide)

end Site

end Syntax

end RubyIndex
