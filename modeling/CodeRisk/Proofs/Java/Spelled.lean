import CodeRisk.Proofs.Java.Layout
import CodeRisk.Proofs.Java.Threads

/-!
# What the spelling of tokens says of frames

A keyword, an operator or a bracket stands in the text as the grammar spells it. So a declaration
ends in a brace or a semicolon: the last step of its production is one of these, or a body that ends
in one (`endsClosed_of_mem`). And each method has a parenthesis of its own, that before its
parameters (`isHead_of_mem`). Both hold of every frame of a reader (`Reader.Frame.Spelled`).
-/
namespace CodeRisk.Java
open Grammar (Production)
open CodeRisk.Java.Tree (closes forestLeaves)

/-! ## Productions that end in a brace or a semicolon -/

/-- The declarations that a unit keeps the lines of, and the bodies in which they end. -/
def Phrase.isClosed : Phrase → Bool
  | .node .methodDeclaration | .node .classDeclaration | .node .interfaceDeclaration
  | .node .block | .node .classBody | .node .interfaceBody => true
  | _ => false

/-- Whether all readings of a symbol end in a brace or a semicolon. -/
def isClosed : Grammar.Symbol Terminal Phrase → Bool
  | .terminal t => t == .fixed "\x7d" || t == .fixed ";"
  | .phrase p => p.isClosed

/-- Whether the last step of a production is closed. -/
def endsClosed (p : Production Terminal Phrase Field TokenKind) : Bool :=
  p.steps.getLast?.any fun s => isClosed s.symbol

theorem endsClosed_of_mem : ∀ p ∈ grammar.productions, p.phrase.isClosed → endsClosed p := by
  decide +kernel

/-! ## Productions that hold the parenthesis of a method -/

/-- Whether all readings of a symbol hold the parenthesis before the parameters of a method. -/
def isHead : Grammar.Symbol Terminal Phrase → Bool
  | .terminal t => t == .fixed "("
  | .phrase p => p == .methodHeader || p == .methodDeclarator || p == .node .formalParameters

theorem isHead_of_mem : ∀ p ∈ grammar.productions,
    isHead (.phrase p.phrase) || p.phrase == .node .methodDeclaration →
      ∃ s ∈ p.steps, isHead s.symbol := by
  decide +kernel

namespace Tree

/-! ## The tokens of declarations -/

@[simp] theorem leaves_inRole (f : Field) (t : Tree) : (t.inRole f).leaves = t.leaves := by
  cases t with
  | leaf => rfl
  | branch => rw [inRole, leaves, leaves]

@[simp] theorem leaves_shownAs (k : TokenKind) (t : Tree) : (t.shownAs k).leaves = t.leaves := by
  cases t with
  | leaf => rw [shownAs, leaves, leaves]
  | branch => rfl

@[simp] theorem leaves_dressed (s : JavaStep) (t : Tree) : (t.dressed s).leaves = t.leaves := by
  unfold dressed
  cases s.shown <;> cases s.label <;> simp

theorem forestLeaves_map_dressed (s : JavaStep) (ts : List Tree) :
    forestLeaves (ts.map (dressed s)) = forestLeaves ts := by
  simp only [forestLeaves_eq, List.flatMap_map, leaves_dressed]

/-- The tokens of each declaration in a tree. -/
def declared (t : Tree) : List (List Lexeme) :=
  (t.nodes.filter isDeclaration).map leaves

theorem declared_eq_nil_of_isComment {t : Tree} (h : t.isComment) : t.declared = [] := by
  cases t with
  | leaf => rfl
  | branch => cases h

theorem declared_branch (k : NodeKind) (f : Option Field) (cs : List Tree) :
    (branch k f cs).declared =
      (if (branch k f cs).isDeclaration then [forestLeaves cs] else []) ++ cs.flatMap declared := by
  have hbelow : ((cs.flatMap nodes).filter isDeclaration).map leaves = cs.flatMap declared := by
    rw [List.filter_flatMap, List.map_flatMap]
    rfl
  rw [declared, nodes_branch, List.filter_cons, ← hbelow]
  split
  · rw [List.map_cons, leaves_branch]
    rfl
  · rfl

/-- The role of a tree in its parent says nothing of the declarations in it. -/
theorem declared_dressed (s : JavaStep) (t : Tree) : (t.dressed s).declared = t.declared := by
  cases t with
  | leaf k f l =>
    unfold dressed
    cases s.shown <;> cases s.label <;> rfl
  | branch k f cs =>
    have hdressed : ∃ g, (branch k f cs).dressed s = branch k g cs := by
      unfold dressed
      cases s.shown <;> cases s.label <;> exact ⟨_, rfl⟩
    obtain ⟨g, hg⟩ := hdressed
    rw [hg, declared_branch, declared_branch]
    rfl

theorem isClosed_of_isDeclaration {k : NodeKind} {f : Option Field} {cs : List Tree}
    (h : (branch k f cs).isDeclaration) : (Phrase.node k).isClosed := by
  simp only [isDeclaration, isNode, Bool.or_eq_true, beq_iff_eq] at h
  rcases h with (rfl | rfl) | rfl <;> rfl

/-! ## The number of methods -/

/-- The number of methods in some trees. -/
def methodCount (ts : List Tree) : Nat :=
  (forestNodes ts).countP (isNode .methodDeclaration)

/-- The number of characters in the tokens of some trees. -/
def width (ts : List Tree) : Nat :=
  ((forestLeaves ts).map fun l => l.text.length).sum

theorem methodCount_append (ts us : List Tree) :
    methodCount (ts ++ us) = methodCount ts + methodCount us := by
  rw [methodCount, forestNodes_append, List.countP_append]
  rfl

theorem width_append (ts us : List Tree) : width (ts ++ us) = width ts + width us := by
  rw [width, forestLeaves_append, List.map_append, List.sum_append_nat]
  rfl

theorem methodCount_of_isComment {ts : List Tree} (h : ∀ t ∈ ts, t.isComment) :
    methodCount ts = 0 := by
  induction ts with
  | nil => rfl
  | cons t ts ih =>
    obtain ⟨ht, hts⟩ := List.forall_mem_cons.mp h
    cases t with
    | leaf => exact ih hts
    | branch => cases ht

theorem methodCount_dressed (s : JavaStep) (ts : List Tree) :
    methodCount (ts.map (dressed s)) = methodCount ts := by
  induction ts with
  | nil => rfl
  | cons t ts ih =>
    rw [List.map_cons, ← List.singleton_append, methodCount_append, ih,
      ← List.singleton_append (l := ts), methodCount_append]
    congr 1
    cases t <;> unfold dressed <;> cases s.shown <;> cases s.label <;> rfl

theorem width_dressed (s : JavaStep) (ts : List Tree) :
    width (ts.map (dressed s)) = width ts := by
  rw [width, forestLeaves_map_dressed, width]

end Tree

namespace Reader
open CodeRisk.Java.Tree (declared methodCount width)

/-! ## Frames with spelled tokens -/

/-- What a frame owes to the spelling of its tokens. Its declarations are closed, and its symbol too
if the grammar says so; and each method has a parenthesis of its own, which may be still to come to
use. -/
structure Frame.Spelled (f : Frame) : Prop where
  symbol : isClosed f.symbol → closes (forestLeaves f.trees)
  declared : ∀ ls ∈ f.trees.flatMap declared, closes ls
  comments : ∀ t ∈ f.comments, t.isComment
  counted : methodCount f.trees + (isHead f.symbol).toNat ≤ width f.trees

/-- Comments declare nothing. -/
theorem Frame.Spelled.contents {f : Frame} (hf : f.Spelled) :
    ∀ ls ∈ (f.trees ++ f.comments).flatMap Tree.declared, closes ls := by
  intro ls hls
  rw [List.flatMap_append] at hls
  rcases List.mem_append.mp hls with hls | hls
  · exact hf.declared ls hls
  · obtain ⟨t, ht, hls⟩ := List.mem_flatMap.mp hls
    rw [Tree.declared_eq_nil_of_isComment (hf.comments t ht)] at hls
    cases hls

/-- The frame of a token. -/
theorem spelled_shifted {state : Nat} {t : Token} (ht : t.IsSpelled) :
    (shifted state t).Spelled where
  symbol h := by
    show closes [t.lexeme]
    rcases Bool.or_eq_true_iff.mp h with h | h
    · simp [closes, ht _ (eq_of_beq h)]
    · simp [closes, ht _ (eq_of_beq h)]
  declared := List.forall_mem_nil _
  comments := List.forall_mem_nil _
  counted := by
    show 0 + (t.terminal == .fixed "(").toNat ≤ t.lexeme.text.length + 0
    cases h : t.terminal == .fixed "(" with
    | false => exact Nat.zero_le _
    | true => rw [ht _ (eq_of_beq h)]; decide

section Reductions
variable {p : Production Terminal Phrase Field TokenKind} {parts : List Frame} {f : Frame}

/-- What a closed phrase gathers is closed, as its last frame is. -/
theorem closes_gather (hp : p ∈ grammar.productions) (hparts : ∀ g ∈ parts, g.Spelled)
    (hf : Reduction p parts f) (h : p.phrase.isClosed) :
    closes (forestLeaves (gather p.steps parts)) := by
  have hends : p.steps.getLast?.any fun s => isClosed s.symbol := endsClosed_of_mem p hp h
  obtain ⟨s, hlast, hs⟩ := (Option.any_eq_true _ _).mp hends
  obtain ⟨ss, hsteps⟩ := List.getLast?_eq_some_iff.mp hlast
  have hsymbols := hf.symbols
  rw [hsteps, List.map_append] at hsymbols
  obtain ⟨fs, gs, rfl, hfs, hgs⟩ := List.map_eq_append_iff.mp hsymbols
  obtain ⟨g, rfl, hsymbol⟩ := List.map_eq_singleton_iff.mp hgs
  have hlength : fs.length = ss.length := by
    have hlength := congrArg List.length hfs
    rwa [List.length_map, List.length_map] at hlength
  have hg : g.Spelled := hparts g (by simp)
  obtain ⟨ts, hts⟩ := gather_concat (s := s) (f := g) hlength
  rw [hsteps, hts, Tree.forestLeaves_append]
  apply Tree.closes_append
  rw [Tree.forestLeaves_map_dressed]
  exact hg.symbol (hsymbol ▸ hs)

/-- The methods of all frames have parentheses of their own. -/
theorem methodCount_gather {ss : List JavaStep} (hparts : ∀ g ∈ parts, g.Spelled)
    (h : parts.length = ss.length) :
    methodCount (gather ss parts) + parts.countP (fun g => isHead g.symbol) ≤
      width (gather ss parts) := by
  induction ss generalizing parts with
  | nil =>
    obtain rfl := List.length_eq_zero_iff.mp h
    exact Nat.zero_le _
  | cons s ss ih =>
    cases parts with
    | nil => cases h
    | cons g gs =>
      obtain ⟨hg, hgs⟩ := List.forall_mem_cons.mp hparts
      have hbetween : methodCount (if gs.isEmpty then [] else g.comments) = 0 := by
        split
        · rfl
        · exact Tree.methodCount_of_isComment hg.comments
      have hcounted := hg.counted
      have hrest := ih hgs (Nat.succ.inj h)
      rw [gather, Tree.dress_eq, Tree.methodCount_append, Tree.methodCount_append, hbetween,
        Tree.methodCount_dressed, Tree.width_append, Tree.width_append, Tree.width_dressed,
        List.countP_cons]
      cases hhead : isHead g.symbol with
      | false =>
        rw [hhead] at hcounted
        simp only [Bool.false_eq_true, if_false, Bool.toNat_false] at hcounted ⊢
        omega
      | true =>
        rw [hhead] at hcounted
        simp only [if_true, Bool.toNat_true] at hcounted ⊢
        omega

theorem forestLeaves_wrap (q : Phrase) (ts : List Tree) :
    forestLeaves (wrap q ts) = forestLeaves ts := by
  cases q <;> simp [wrap, forestLeaves, Tree.leaves]

theorem methodCount_wrap (q : Phrase) (ts : List Tree) :
    methodCount (wrap q ts) = methodCount ts + (q == .node .methodDeclaration).toNat := by
  cases q with
  | node k =>
    rw [wrap, methodCount, Tree.forestNodes, Tree.forestNodes, List.append_nil, Tree.nodes,
      List.countP_cons]
    have hkind : (Phrase.node k == .node .methodDeclaration) = (k == .methodDeclaration) := by
      rw [Bool.eq_iff_iff, beq_iff_eq, beq_iff_eq, Phrase.node.injEq]
    rw [hkind, Tree.isNode]
    cases k == .methodDeclaration <;> rfl
  | _ => rfl

/-- The declarations in a frame are those of the frames before, and maybe the frame itself. -/
theorem declared_reduced (hp : p ∈ grammar.productions) (hparts : ∀ g ∈ parts, g.Spelled)
    (hf : Reduction p parts f) : ∀ ls ∈ f.trees.flatMap Tree.declared, closes ls := by
  have hgather : ∀ ls ∈ (gather p.steps parts).flatMap Tree.declared, closes ls := by
    intro ls hls
    have hall : ls ∈ (gather p.steps parts ++ trailing parts).flatMap Tree.declared := by
      rw [List.flatMap_append]
      exact List.mem_append_left _ hls
    rw [flatMap_gather Tree.declared_dressed hf.length, List.flatMap_assoc] at hall
    obtain ⟨g, hg, hls⟩ := List.mem_flatMap.mp hall
    exact (hparts g hg).contents ls hls
  rw [hf.trees]
  cases hphrase : p.phrase with
  | node k =>
    rw [wrap, List.flatMap_singleton, Tree.declared_branch]
    refine List.forall_mem_append.mpr ⟨?_, hgather⟩
    split
    next h =>
      have hclosed : p.phrase.isClosed := hphrase ▸ Tree.isClosed_of_isDeclaration h
      exact List.forall_mem_singleton.mpr (closes_gather hp hparts hf hclosed)
    next => exact List.forall_mem_nil _
  | _ => exact hgather

/-- A method, or the head of one, takes the parenthesis of one of its parts. -/
theorem counted_reduced (hp : p ∈ grammar.productions) (hparts : ∀ g ∈ parts, g.Spelled)
    (hf : Reduction p parts f) :
    methodCount f.trees + (isHead f.symbol).toNat ≤ width f.trees := by
  have hgather := methodCount_gather hparts hf.length
  have hwidth : width f.trees = width (gather p.steps parts) := by
    rw [width, hf.trees, forestLeaves_wrap]
    rfl
  rw [hf.symbol, hwidth, hf.trees, methodCount_wrap]
  cases hhead : isHead (.phrase p.phrase) || p.phrase == .node .methodDeclaration with
  | false =>
    obtain ⟨hhead, hmethod⟩ := Bool.or_eq_false_iff.mp hhead
    rw [hhead, hmethod]
    exact Nat.le_trans (Nat.le_add_right ..) hgather
  | true =>
    obtain ⟨s, hs, hsymbol⟩ := isHead_of_mem p hp hhead
    have hmem : s.symbol ∈ parts.map (·.symbol) := hf.symbols ▸ List.mem_map_of_mem hs
    obtain ⟨g, hg, hgs⟩ := List.mem_map.mp hmem
    have hpos : 0 < parts.countP fun g => isHead g.symbol :=
      List.countP_pos_iff.mpr ⟨g, hg, by rw [hgs]; exact hsymbol⟩
    have hone : (p.phrase == .node .methodDeclaration).toNat +
        (isHead (.phrase p.phrase)).toNat ≤ 1 := by
      cases hmethod : p.phrase == .node .methodDeclaration with
      | false =>
        rw [Bool.toNat_false, Nat.zero_add]
        exact Bool.toNat_le _
      | true => rw [eq_of_beq hmethod]; decide
    omega

/-- The frame that takes the place of the frames of a production. -/
theorem spelled_reduced (hp : p ∈ grammar.productions) (hparts : ∀ g ∈ parts, g.Spelled)
    (hf : Reduction p parts f) : f.Spelled where
  symbol h := by
    rw [hf.symbol] at h
    rw [hf.trees, forestLeaves_wrap]
    exact closes_gather hp hparts hf h
  declared := declared_reduced hp hparts hf
  comments := by
    rw [hf.comments, trailing]
    cases hlast : parts.getLast? with
    | none => exact List.forall_mem_nil _
    | some g => exact (hparts g (List.mem_of_getLast? hlast)).comments
  counted := counted_reduced hp hparts hf

end Reductions

end Reader

end CodeRisk.Java
