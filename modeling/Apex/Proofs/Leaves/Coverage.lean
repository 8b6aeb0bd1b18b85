import Apex.Proofs.Spans.Order

/-!
# The leaves of a program and its names and literals

The leaves of an accepted program come one behind the other, each on whole tokens. Every name and
every literal of the text lies in exactly one of them, except for the few words that a node stands
for itself: the `on` of a trigger, the `get` or `set` of an accessor, and the `System` and `runAs`
of a block that runs as another user. These lie in no leaf.
-/

namespace Apex

namespace Node

/-- The leaves of a tree in the order in which a walk comes to them. -/
def leaves (n : Node) : List Node := n.entered.filter (·.kind.isLeaf)

/-- Whether the token is one of the words that the node itself stands for. It stands in the node
and in none of its children. -/
def owns (n : Node) (t : Token) : Bool :=
  n.span.contains t.span && n.children.all (!·.span.contains t.span) &&
    n.element.words.any t.kind.spells

/-- Whether the token is a word that some node of the tree stands for. -/
def hasWord (root : Node) (t : Token) : Bool := root.entered.any (·.owns t)

/-- The leaves of a tree go with the tokens it was read from. -/
structure LeavesCover (root : Node) (tokens : List Token) : Prop where
  /-- The leaves come one behind the other. -/
  ordered : root.leaves.Pairwise fun a b =>
    a.span.start < b.span.start ∧ a.span.stop ≤ b.span.start
  /-- A leaf starts where a token starts and stops where a token stops. -/
  aligned : ∀ leaf ∈ root.leaves,
    (∃ t ∈ tokens, t.span.start = leaf.span.start) ∧ ∃ t ∈ tokens, t.span.stop = leaf.span.stop
  /-- A name or a literal lies in exactly one leaf. -/
  covered : ∀ t ∈ tokens, t.kind.bearsLeaf = true → root.hasWord t = false →
    root.leaves.countP (·.span.contains t.span) = 1
  /-- A word that a node stands for itself lies in none. -/
  bare : ∀ t ∈ tokens, t.kind.bearsLeaf = true → root.hasWord t = true →
    ∀ leaf ∈ root.leaves, leaf.span.contains t.span = false

end Node

/-! ## Tokens and the nodes that sit around them -/

namespace SortedRow

variable {row : Array Token}

theorem stop_mono (s : SortedRow row) {i j : Nat} (hij : i ≤ j) (hj : j + 1 < row.size) :
    row[i].span.stop ≤ row[j].span.stop := by
  by_cases same : i = j
  · subst same
    exact Nat.le_refl _
  · have before := s.stop_le_start (i := i) (j := j) (by omega) (by omega)
    have proper := s.proper j hj
    omega

end SortedRow

namespace Node

variable {row : Array Token} {n : Node} {ns : List Node} {free : Token → Bool}
  {c c₁ c' : Cursor} {i : Nat}

theorem Sits.start_eq (h : n.Sits c c') (hrow : c.tokens = row) :
    ∃ hi : c.position < row.size, n.span.start = row[c.position].span.start := by
  subst hrow
  exact ⟨c.inBounds, by rw [h.span_eq]; rfl⟩

theorem Sits.stop_eq (h : n.Sits c c') (hrow : c.tokens = row) :
    ∃ hi : c'.position - 1 + 1 < row.size, n.span.stop = row[c'.position - 1].span.stop := by
  subst hrow
  have behind := h.before.position
  have inBounds := h.before.inBounds
  refine ⟨by omega, ?_⟩
  rw [h.span_eq]
  exact h.before.stop_eq (by omega)

/-- A node contains the tokens on which it sits, and no other token that is not empty. -/
theorem Sits.contains_token {inside : i < row.size} (h : n.Sits c c') (hrow : c.tokens = row)
    (s : SortedRow row) (hi : i + 1 < row.size) :
    n.span.contains row[i].span = true ↔ c.position ≤ i ∧ i < c'.position := by
  obtain ⟨inBounds, start_eq⟩ := h.start_eq hrow
  obtain ⟨last, stop_eq⟩ := h.stop_eq hrow
  have behind := h.before.position
  have proper := s.proper i hi
  rw [Span.contains, Bool.and_eq_true, decide_eq_true_iff, decide_eq_true_iff, start_eq, stop_eq]
  constructor
  · rintro ⟨starts, stops⟩
    constructor
    · refine Nat.le_of_not_lt fun early => ?_
      have := s.stop_le_start early inBounds
      omega
    · refine Nat.lt_of_not_le fun late => ?_
      have := s.stop_le_start (i := c'.position - 1) (j := i) (by omega) (by omega)
      omega
  · rintro ⟨from_c, to_c'⟩
    exact ⟨s.start_mono from_c (by omega), s.stop_mono (by omega) last⟩

theorem Spread.uncons (h : Spread free (n :: ns) c c') :
    ∃ c₁ c₂, c.Gap free c₁ ∧ n.Sits c₁ c₂ ∧ Spread free ns c₂ c' := by
  obtain _ | ⟨gap, first, rest⟩ := h
  exact ⟨_, _, gap, first, rest⟩

/-! ## The order of the leaves -/

/-- The leaves below a node come one behind the other. -/
theorem Sits.leaves_pairwise (h : n.Sits c c') (s : c.Sorted) :
    (n.preorder.filter (·.kind.isLeaf)).Pairwise Precedes := by
  refine h.filter_pairwise s fun m hm isLeaf k hk => ?_
  obtain ⟨d, d', _, sits, _⟩ := h.mem_preorder hm
  rw [sits.bare isLeaf] at hk
  cases hk

/-! ## The leaves around a token -/

/-- How many leaves of some trees contain the token. -/
def leafCount (ns : List Node) (t : Token) : Nat :=
  (ns.flatMap preorder).countP fun m => m.span.contains t.span && m.kind.isLeaf

/-- How many nodes of some trees have the token as a word of their own. -/
def wordCount (ns : List Node) (t : Token) : Nat := (ns.flatMap preorder).countP (·.owns t)

theorem leafCount_cons (n : Node) (ns : List Node) (t : Token) :
    leafCount (n :: ns) t =
      (if n.span.contains t.span && n.kind.isLeaf then 1 else 0) + leafCount n.children t +
        leafCount ns t := by
  simp only [leafCount, List.flatMap_cons, List.countP_append, preorder_eq n, List.countP_cons]
  omega

theorem wordCount_cons (n : Node) (ns : List Node) (t : Token) :
    wordCount (n :: ns) t =
      (if n.owns t then 1 else 0) + wordCount n.children t + wordCount ns t := by
  simp only [wordCount, List.flatMap_cons, List.countP_append, preorder_eq n, List.countP_cons]
  omega

theorem leafCount_append (n : Node) (ns : List Node) (t : Token) :
    leafCount (n :: ns) t = leafCount [n] t + leafCount ns t := by
  simp [leafCount]

theorem wordCount_append (n : Node) (ns : List Node) (t : Token) :
    wordCount (n :: ns) t = wordCount [n] t + wordCount ns t := by
  simp [wordCount]

/-- Only one node of a row contains a token, so what is known of each node of the row is known of
the row. -/
theorem Spread.accounts {inside : i < row.size} (h : Spread free ns c c') (hrow : c.tokens = row)
    (s : SortedRow row) (hi : i + 1 < row.size)
    (each : ∀ m ∈ ns, leafCount [m] row[i] + wordCount [m] row[i] =
      if m.span.contains row[i].span then 1 else 0) :
    leafCount ns row[i] + wordCount ns row[i] =
      if ns.any (·.span.contains row[i].span) then 1 else 0 := by
  induction ns generalizing c with
  | nil => rfl
  | cons n ns ih =>
    obtain ⟨c₁, c₂, gap, first, rest⟩ := h.uncons
    have row₁ : c₁.tokens = row := gap.upto.tokens.trans hrow
    have row₂ : c₂.tokens = row := first.before.tokens.trans row₁
    have here := each n (List.mem_cons_self ..)
    have later := ih rest row₂ fun m hm => each m (List.mem_cons_of_mem _ hm)
    rw [leafCount_append, wordCount_append, List.any_cons]
    by_cases inside : n.span.contains row[i].span = true
    · -- The nodes behind the one that contains the token do not.
      have none : ns.any (·.span.contains row[i].span) = false := by
        refine List.any_eq_false.mpr fun m hm holds => ?_
        obtain ⟨d, d', before, sits, _⟩ := rest.mem hm
        have early := ((first.contains_token row₁ s hi).mp inside).2
        have late := ((sits.contains_token (before.tokens.trans row₂) s hi).mp holds).1
        have := before.position
        omega
      rw [none] at later ⊢
      rw [inside] at here ⊢
      simp only [Bool.or_false, if_true, Bool.false_eq_true, if_false] at here later ⊢
      omega
    · rw [Bool.not_eq_true] at inside
      rw [inside] at here ⊢
      rw [Bool.false_or]
      simp only [Bool.false_eq_true, if_false] at here
      omega

/-- A token of a row that none of its nodes contains is one of those around them. -/
theorem Spread.free_of_bare (h : Spread free ns c c') (hrow : c.tokens = row) (s : SortedRow row)
    (hi : i + 1 < row.size) (from_c : c.position ≤ i) (to_c' : i < c'.position)
    (bare : ns.any (·.span.contains row[i].span) = false) : free row[i] = true := by
  induction ns generalizing c with
  | nil =>
    obtain ⟨gap⟩ := h
    subst hrow
    exact gap.all_free i (by omega) from_c to_c'
  | cons n ns ih =>
    obtain ⟨c₁, c₂, gap, first, rest⟩ := h.uncons
    have row₁ : c₁.tokens = row := gap.upto.tokens.trans hrow
    rw [List.any_cons, Bool.or_eq_false_iff] at bare
    by_cases early : i < c₁.position
    · subst hrow
      exact gap.all_free i (by omega) from_c early
    · by_cases late : c₂.position ≤ i
      · exact ih rest (first.before.tokens.trans row₁) late bare.2
      · have inside : n.span.contains row[i].span = true :=
          (first.contains_token row₁ s hi).mpr ⟨by omega, by omega⟩
        rw [bare.1] at inside
        cases inside

theorem owns_of_child {t : Token} (child : n.children.any (·.span.contains t.span) = true) :
    n.owns t = false := by
  have : n.children.all (!·.span.contains t.span) = false := by
    rw [← List.not_any_eq_all_not, child]
    rfl
  rw [owns, this, Bool.and_false, Bool.false_and]

theorem words_of_isLeaf {e : Element} (isLeaf : e.kind.isLeaf = true) : e.words = [] := by
  cases e with
  | trigger => cases isLeaf
  | accessor a =>
    rw [Element.kind] at isLeaf
    cases hk : a.kind <;> rw [hk] at isLeaf <;> cases isLeaf
  | statement x => cases x <;> first | rfl | cases isLeaf
  | _ => rfl

/-- A name or a literal on which a node sits lies in one leaf below the node, or it is a word that
one node below stands for. -/
theorem Sits.accounts {inside : i < row.size} (h : n.Sits c c') (hrow : c.tokens = row)
    (s : SortedRow row) (hi : i + 1 < row.size) (bears : row[i].kind.bearsLeaf = true) :
    leafCount [n] row[i] + wordCount [n] row[i] =
      if n.span.contains row[i].span then 1 else 0 := by
  induction n using Node.induction generalizing c c' with
  | step n ih =>
    have spread := h.children_spread
    have below := spread.accounts hrow s hi fun m hm => by
      obtain ⟨d, d', before, sits, _⟩ := spread.mem hm
      exact ih m hm sits (before.tokens.trans hrow)
    have sorted : c.Sorted := by
      subst hrow
      exact s
    have none : leafCount [] row[i] = 0 ∧ wordCount [] row[i] = 0 := ⟨rfl, rfl⟩
    rw [leafCount_cons, wordCount_cons, none.1, none.2]
    by_cases inside : n.span.contains row[i].span = true
    · obtain ⟨from_c, to_c'⟩ := (h.contains_token hrow s hi).mp inside
      by_cases child : n.children.any (·.span.contains row[i].span) = true
      · -- A child contains the token, so the node is no leaf and the word is not its own.
        have inner : n.kind.isLeaf = false := by
          rw [← Bool.not_eq_true]
          intro isLeaf
          rw [h.bare isLeaf] at child
          cases child
        simp only [child, if_true] at below
        simp only [inside, inner, owns_of_child child, Bool.and_false, Bool.false_eq_true, if_false,
          if_true]
        omega
      · rw [Bool.not_eq_true] at child
        have keeps := spread.free_of_bare hrow s hi from_c to_c' child
        simp only [child, Bool.false_eq_true, if_false] at below
        by_cases isLeaf : n.kind.isLeaf = true
        · have foreign : n.owns row[i] = false := by
            rw [owns, words_of_isLeaf isLeaf, List.any_nil, Bool.and_false]
          simp only [inside, isLeaf, foreign, Bool.and_true, Bool.false_eq_true, if_false, if_true]
          omega
        · -- The node itself stands for the token, which is neither silent nor in a leaf.
          rw [Bool.not_eq_true] at isLeaf
          have word : n.element.words.any row[i].kind.spells = true := by
            have silent : row[i].silent = false := by rw [Token.silent, bears]; rfl
            rw [Element.keeps, show n.element.kind.isLeaf = false from isLeaf, silent] at keeps
            exact keeps
          have own : n.owns row[i] = true := by
            rw [owns, inside, word, ← List.not_any_eq_all_not, child]
            rfl
          simp only [inside, isLeaf, own, Bool.and_false, Bool.false_eq_true, if_false, if_true]
          omega
    · rw [Bool.not_eq_true] at inside
      have child : n.children.any (·.span.contains row[i].span) = false := by
        refine List.any_eq_false.mpr fun m hm holds => ?_
        obtain ⟨d, d', before, sits, behind⟩ := spread.mem hm
        have place := (sits.contains_token (before.tokens.trans hrow) s hi).mp holds
        have first := before.position
        have last := behind.position
        have outside : n.span.contains row[i].span = true :=
          (h.contains_token hrow s hi).mpr ⟨by omega, by omega⟩
        rw [inside] at outside
        cases outside
      have foreign : n.owns row[i] = false := by
        rw [owns, inside, Bool.false_and, Bool.false_and]
      simp only [child, Bool.false_eq_true, if_false] at below
      simp only [inside, foreign, Bool.false_and, Bool.false_eq_true, if_false]
      omega

/-! ## The leaves of a program -/

theorem leaves_eq (n : Node) : n.leaves = n.preorder.filter (·.kind.isLeaf) := by
  rw [leaves, entered_eq_preorder]

theorem countP_leaves (n : Node) (t : Token) :
    n.leaves.countP (·.span.contains t.span) = leafCount [n] t := by
  rw [leaves_eq, List.countP_filter, leafCount]
  simp

/-- A tree that sits on all names and literals of a row. -/
theorem Sits.leavesCover {tokens : List Token} (h : n.Sits c c') (s : c.Sorted)
    (hrow : c.tokens = tokens.toArray)
    (whole : ∀ i (hi : i < tokens.length), tokens[i].kind.bearsLeaf = true →
      c.position ≤ i ∧ i < c'.position) : n.LeavesCover tokens := by
  have sorted : SortedRow tokens.toArray := by
    rw [← hrow]
    exact s
  have last : c'.position < tokens.length := by
    have inBounds := h.before.inBounds
    rwa [hrow, List.size_toArray] at inBounds
  -- Every name and every literal is either in a leaf or a word of a node.
  have one : ∀ t ∈ tokens, t.kind.bearsLeaf = true → leafCount [n] t + wordCount [n] t = 1 := by
    intro t ht bears
    obtain ⟨i, hi, rfl⟩ := List.getElem_of_mem ht
    have place := whole i hi bears
    have inner : i + 1 < tokens.toArray.size := by
      rw [List.size_toArray]
      omega
    have accounts : leafCount [n] tokens.toArray[i] + wordCount [n] tokens.toArray[i] =
        if n.span.contains tokens.toArray[i].span then 1 else 0 :=
      h.accounts hrow sorted inner (by simpa using bears)
    rw [if_pos ((h.contains_token hrow sorted inner).mpr place)] at accounts
    simpa using accounts
  have hasWord_iff : ∀ t, n.hasWord t = true ↔ 0 < wordCount [n] t := by
    intro t
    rw [hasWord, entered_eq_preorder, wordCount, List.countP_pos_iff, List.any_eq_true]
    simp
  constructor
  · rw [leaves_eq]
    exact h.leaves_pairwise s
  · intro leaf hleaf
    rw [leaves_eq] at hleaf
    obtain ⟨d, d', before, sits, _⟩ := h.mem_preorder (List.mem_filter.mp hleaf).1
    obtain ⟨first, start_eq⟩ := sits.start_eq (before.tokens.trans hrow)
    obtain ⟨last, stop_eq⟩ := sits.stop_eq (before.tokens.trans hrow)
    rw [List.size_toArray] at first last
    exact ⟨⟨tokens[d.position], List.getElem_mem _, start_eq.symm⟩,
      tokens[d'.position - 1], List.getElem_mem _, stop_eq.symm⟩
  · intro t ht bears foreign
    have none : ¬0 < wordCount [n] t := by
      rw [← hasWord_iff, foreign]
      exact Bool.false_ne_true
    have := one t ht bears
    rw [countP_leaves]
    omega
  · intro t ht bears own leaf hleaf
    have some := (hasWord_iff t).mp own
    have total := one t ht bears
    have bare : n.leaves.countP (·.span.contains t.span) = 0 := by
      rw [countP_leaves]
      omega
    have := List.countP_eq_zero.mp bare leaf hleaf
    rwa [Bool.not_eq_true] at this

end Node

/-- A file that holds nothing has one leaf, on its end. -/
theorem leavesCover_of_nothing {u : CompilationUnit} {t : Token}
    (nothing : u.declaration = .nothing u.span) (span_eq : u.span = t.span)
    (ends : t.isEnd = true) : u.node.LeavesCover [t] := by
  have leaves : u.node.leaves = [.leaf .nothing t.span] := by
    rw [Node.leaves_eq, CompilationUnit.node, nothing, Declaration.node, span_eq]
    rfl
  have silent : t.kind.bearsLeaf = false := by
    unfold Token.isEnd at ends
    cases hk : t.kind <;> rw [hk] at ends <;> first | rfl | cases ends
  constructor
  · rw [leaves]
    exact List.pairwise_singleton ..
  · intro leaf hleaf
    rw [leaves] at hleaf
    cases List.mem_singleton.mp hleaf
    exact ⟨⟨t, List.mem_singleton_self t, rfl⟩, t, List.mem_singleton_self t, rfl⟩
  · intro t' ht bears
    cases List.mem_singleton.mp ht
    rw [silent] at bears
    cases bears
  · intro t' ht bears
    cases List.mem_singleton.mp ht
    rw [silent] at bears
    cases bears

/-- The tree of a whole row of tokens. -/
theorem leavesCover_of_place {source : String} {tokens : List Token} {u : CompilationUnit}
    {c' : Cursor} (lexed : lex source = .ok tokens)
    (stray : (Cursor.ofTokens tokens).strayAfterEnd? = none) (ends : c'.atEnd = true)
    (place : u.node.Sits (Cursor.ofTokens tokens) c' ∨ c' = Cursor.ofTokens tokens ∧
      u.declaration = .nothing u.span ∧
      u.span = Grammar.spanThrough (Cursor.ofTokens tokens)
        (Cursor.ofTokens tokens).current.span) : u.node.LeavesCover tokens := by
  have s := sorted_of_lex lexed
  have hrow := tokens_of_lex lexed
  have endsRow := (Cursor.ofTokens tokens).endsRow
  simp only [hrow, List.size_toArray, List.getElem_toArray] at endsRow
  rcases place with sits | ⟨rfl, nothing, span_eq⟩
  · have last := Cursor.last_of_atEnd stray sits.before.upto ends
    rw [hrow, List.size_toArray] at last
    refine sits.leavesCover s hrow fun i hi bears => ⟨Nat.zero_le i, ?_⟩
    refine Nat.lt_of_le_of_ne (by omega) fun atEnd => ?_
    -- The last token is the end of the file, which is no name and no literal.
    have same : i = tokens.length - 1 := by omega
    subst same
    unfold Token.isEnd at endsRow
    cases hk : tokens[tokens.length - 1].kind <;> rw [hk] at endsRow bears <;> cases endsRow
    cases bears
  · have last := Cursor.last_of_atEnd stray (.refl _) ends
    rw [hrow, List.size_toArray] at last
    obtain ⟨t, rfl⟩ := List.length_eq_one_iff.mp last.symm
    have here : (Cursor.ofTokens [t]).current = t := by
      rw [Cursor.current_eq _ (Cursor.ofTokens [t]).inBounds]
      simp only [hrow]
      rfl
    rw [here] at span_eq
    exact leavesCover_of_nothing nothing span_eq (by rwa [← here])

/-- In an accepted text the leaves come one behind the other, each on whole tokens, and every name
and every literal lies in exactly one of them, except for the words of triggers, accessors and
`System.runAs`, which lie in none. -/
theorem leavesCover_of_parseSource {source : String} {unit : CompilationUnit}
    (accepted : parseSource source = .ok unit) :
    ∃ tokens, lex source = .ok tokens ∧ unit.node.LeavesCover tokens := by
  unfold parseSource at accepted
  split at accepted
  · next tokens lexed =>
    refine ⟨tokens, lexed, ?_⟩
    have s := sorted_of_lex lexed
    unfold parse parseWithin parseWith at accepted
    dsimp only at accepted
    split at accepted
    · cases accepted
    · next stray =>
      cases run : Grammar.compilationUnit (Grammar.levels maxNesting) (Cursor.ofTokens tokens) with
      | error e =>
        rw [run] at accepted
        cases accepted
      | ok r =>
        obtain ⟨u, c'⟩ := r
        rw [run] at accepted
        cases accepted
        have place := Grammar.compilationUnit_place (Grammar.sits_levels maxNesting) s run
        exact leavesCover_of_place lexed stray place.1 place.2
  · cases accepted
  · cases accepted

/-- A field named like an accessor, and a property with that accessor. -/
theorem leavesCover_accessor :
    ∃ unit, parseSource "class C { C get; C x { get; } }" = .ok unit ∧
      ∃ tokens, lex "class C { C get; C x { get; } }" = .ok tokens ∧
        unit.node.LeavesCover tokens := by
  have found : (parseSource "class C { C get; C x { get; } }").toOption.isSome = true := by
    decide +kernel
  have read : ∀ source, (parseSource source).toOption.isSome = true → ∃ unit,
      parseSource source = .ok unit ∧
        ∃ tokens, lex source = .ok tokens ∧ unit.node.LeavesCover tokens := by
    intro source found
    cases accepted : parseSource source with
    | error e =>
      rw [accepted] at found
      cases found
    | ok unit => exact ⟨unit, rfl, leavesCover_of_parseSource accepted⟩
  have all := read _ found
  exact all

end Apex
