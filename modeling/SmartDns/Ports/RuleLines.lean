import SmartDns.Ports.AddressText
import Mathlib.Data.List.DropRight

/-!
# Lines of address rules are read back

What is printed of an address rule with the comment after it, and of a comment, is read by
the parser of a line as the same line, as far as the domain of the rule is read back. What
the parser of a line has found is of the kind that this asks for: a list of addresses is
not empty, and a comment is on one line.
-/

namespace SmartDns.Ports.RuleLines

open Verified Parser DomainName PatternMap ConfigValues ConfigText Option
  LineParsing AddressText
open List

/-! ## Comments -/

/-- A comment after a rule: blanks, then the mark, and no line break. -/
def CommentText (text : List Char) : Prop :=
  ∃ blanks body, text = blanks ++ '#' :: body ∧ blanks ≠ [] ∧ Blank blanks ∧
    ∀ c ∈ body, isLineBreak c = false

theorem lineEnd_of_comment {comment : Option (List Char)} (h : ∀ text ∈ comment, CommentText text) :
    LineEnd (comment.getD []) := by
  cases comment with
  | none => exact .inl rfl
  | some text =>
    obtain ⟨blanks, body, hText, hNe, hBlank, -⟩ := h text rfl
    exact .inr ⟨blanks, body, hText, hNe, hBlank⟩

theorem comment_run {body : List Char} (h : ∀ c ∈ body, isLineBreak c = false) :
    comment.run ('#' :: body) = some (trimEnd ('#' :: body), []) := by
  have hPair : (pair (char '#') notLineEnding).run (('#' :: body) ++ []) =
      some (('#', body), []) := by
    rw [append_nil]
    simp only [pair, run_bind, run_char, bind_some, run_notLineEnding h, run_pure]
  have hTaken := run_recognize hPair
  rw [append_nil] at hTaken
  rw [comment, run_map, hTaken]
  rfl

variable {s r : List Char}

theorem of_run_comment {text : List Char} (h : comment.run s = some (text, r)) :
    ∃ body, s = '#' :: body ++ r ∧ (∀ c ∈ body, isLineBreak c = false) ∧
      text = trimEnd ('#' :: body) := by
  rw [comment, run_map] at h
  obtain ⟨⟨taken, r'⟩, hTaken, hEq⟩ := map_eq_some_iff.mp h
  cases hEq
  obtain ⟨hSplit, x, hPair⟩ := of_run_recognize hTaken
  simp only [pair, run_bind, bind_eq_some_iff] at hPair
  obtain ⟨⟨c, s'⟩, hMark, ⟨body, r''⟩, hBody, hEnd⟩ := hPair
  cases hEnd
  have hMarked : s = '#' :: s' := of_run_char hMark
  have hRest : s' = body ++ r'' := of_run_takeCount hBody
  have hWhole : s = '#' :: body ++ r'' := by rw [hMarked, hRest, cons_append]
  have hTakenEq : taken = '#' :: body := append_cancel_right (hSplit.symm.trans hWhole)
  exact ⟨body, hWhole, of_run_notLineEnding hBody, by rw [hTakenEq]⟩

theorem lineTail_read {comment : Option (List Char)} (h : ∀ text ∈ comment, CommentText text) :
    lineTail.run (comment.getD []) = some (comment, []) := by
  cases comment with
  | none => rfl
  | some text =>
    obtain ⟨blanks, body, rfl, hNe, hBlank, hBody⟩ := h text rfl
    refine alt_run_of_some ?_
    have hPair : (pair space1 comment).run ((blanks ++ '#' :: body) ++ []) =
        some ((blanks, trimEnd ('#' :: body)), []) := by
      have hSpace : space1.run (blanks ++ '#' :: body) = some (blanks, '#' :: body) :=
        run_takeWhile1 hBlank hNe (stops_cons rfl)
      rw [append_nil]
      simp only [pair, run_bind, hSpace, bind_some, comment_run hBody, run_pure]
    have hTaken := run_recognize hPair
    rw [append_nil] at hTaken
    simp [hTaken]

theorem commentText_of_lineTail {comment : Option (List Char)}
    (h : lineTail.run s = some (comment, r)) : ∀ text ∈ comment, CommentText text := by
  rintro text rfl
  obtain ⟨p, hp, hRun⟩ := alt_run_eq_some h
  simp only [mem_cons, not_mem_nil, or_false] at hp
  rcases hp with rfl | rfl
  · rw [run_map] at hRun
    obtain ⟨⟨taken, r'⟩, hTaken, hEq⟩ := map_eq_some_iff.mp hRun
    cases hEq
    obtain ⟨hSplit, x, hPair⟩ := of_run_recognize hTaken
    simp only [pair, run_bind, bind_eq_some_iff] at hPair
    obtain ⟨⟨blanks, s'⟩, hSpace, ⟨comment, r''⟩, hComment, hEnd⟩ := hPair
    cases hEnd
    obtain ⟨hBlanks, hNe, -⟩ := takeWhile1_run hSpace
    have hAfter : s = blanks ++ s' := of_run_takeCount hSpace
    obtain ⟨body, hBody, hBreaks, -⟩ := of_run_comment hComment
    simp only at hBody
    have hText : taken = blanks ++ '#' :: body := by
      refine append_cancel_right (hSplit.symm.trans ?_)
      rw [hAfter, hBody, append_assoc]
    refine ⟨blanks, body, hText, hNe, ?_, hBreaks⟩
    intro c hc
    rw [hBlanks] at hc
    exact mem_takeWhile_imp hc
  · rw [value, run_map] at hRun
    obtain ⟨x, -, hEq⟩ := map_eq_some_iff.mp hRun
    cases hEq

/-! ## Lines -/

variable {lib : TextLib} {other : ConfigItem → List Char}

/-- The domain of a rule is read back from its text, on one line and in front of what follows. -/
structure ReadsBack (lib : TextLib) (rule : AddressRule) (comment : Option (List Char)) : Prop where
  line : '\n' ∉ showDomain lib rule.domain
  read : (domain lib).run (showDomain lib rule.domain ++
      '/' :: (showAddress rule.config ++ comment.getD [])) =
    some (rule.domain, '/' :: (showAddress rule.config ++ comment.getD []))

/-- The directive for addresses is the first one. -/
theorem directive_of_address {x : ConfigItem × List Char}
    (h : (config "address" .Address (addressRule lib)).parser.run s = some x) :
    (directive lib).run s = some x := by
  have hGroup : (alt ((group1 lib).map Directive.parser)).run s = some x := by
    exact alt_run_of_some h
  exact alt_run_of_some hGroup

theorem showRule_append (rule : AddressRule) (s : List Char) : showRule lib rule ++ s =
    '/' :: (showDomain lib rule.domain ++ '/' :: (showAddress rule.config ++ s)) := by
  have hSlash : "/".toList = ['/'] := rfl
  rw [showRule]
  simp

theorem showItem_append (rule : AddressRule) (s : List Char) :
    showItem lib other (.Address rule) ++ s =
      "address".toList ++ ' ' :: (showRule lib rule ++ s) := by
  have hKeyword : "address ".toList = "address".toList ++ [' '] := by decide +kernel
  show ("address ".toList ++ showRule lib rule) ++ s = _
  rw [hKeyword]
  simp

variable {rule : AddressRule}

/-- A rule is read back if its domain is. -/
theorem addressRule_read {comment : Option (List Char)} (hRead : ReadsBack lib rule comment)
    (hValid : Valid rule.config) (hComment : ∀ text ∈ comment, CommentText text) :
    (addressRule lib).run (showRule lib rule ++ comment.getD []) =
      some (rule, comment.getD []) := by
  have hValue := addressRuleValue_run hValid (lineEnd_of_comment hComment)
  rw [showRule_append]
  simp only [addressRule, slashed, delimited, preceded, terminated, run_bind, run_char,
    bind_some, hRead.read, run_pure, hValue]

theorem space1_rule (rule : AddressRule) (s : List Char) :
    space1.run (' ' :: (showRule lib rule ++ s)) = some ([' '], showRule lib rule ++ s) := by
  have hSpace : ∀ c ∈ [' '], isSpace c = true := all_eq_true.mp (by decide)
  refine run_takeWhile1 hSpace (cons_ne_nil _ _) ?_
  exact stops_cons rfl

/-- The directive printed for a rule is read back. -/
theorem directive_read {comment : Option (List Char)} (hRead : ReadsBack lib rule comment)
    (hValid : Valid rule.config) (hComment : ∀ text ∈ comment, CommentText text) :
    (directive lib).run ("address".toList ++ ' ' :: (showRule lib rule ++ comment.getD [])) =
      some (.Address rule, comment.getD []) := by
  refine directive_of_address ?_
  rw [Directive.parser, config, preceded, run_bind, run_tagNoCase, bind_some, run_map,
    preceded, run_bind, space1_rule, bind_some, addressRule_read hRead hValid hComment,
    map_some]

theorem space0_keyword (s : List Char) :
    space0.run ("address".toList ++ s) = some ([], "address".toList ++ s) := by
  have hLetters : ∀ c ∈ "address".toList, isSpace c = false :=
    all_iff_forall_prop.mp (by decide)
  exact run_takeWhile_of_stops (stops_append (cons_ne_nil _ _) hLetters s)

/-- A line with a rule is read back if its domain is. -/
theorem parseLine_rule {comment : Option (List Char)} (hRead : ReadsBack lib rule comment)
    (hValid : Valid rule.config) (hComment : ∀ text ∈ comment, CommentText text) :
    (parseLine lib).run (showItem lib other (.Address rule) ++ comment.getD []) =
      some (.Config (.Address rule) comment, []) := by
  rw [showItem_append]
  refine alt_run_of_some ?_
  rw [run_bind, preceded, run_bind, space0_keyword, bind_some,
    directive_read hRead hValid hComment, bind_some, run_bind, lineTail_read hComment,
    bind_some, run_pure]

/-! ### Marked domains -/

/-- The text of a name is one token, and the token is read as the name. -/
structure NameText (lib : TextLib) (n : Name) : Prop where
  ne : lib.showName n ≠ []
  chars : ∀ c ∈ lib.showName n, c ∉ " \n\t\\/|\"#',!+<>".toList
  read : lib.name (lib.showName n) = some n

/-- A printed name is read back up to the slash. -/
theorem NameText.run {n : Name} (h : NameText lib n) (s : List Char) :
    (name lib).run (lib.showName n ++ '/' :: s) = some (n, '/' :: s) := by
  have hToken : (isNot " \n\t\\/|\"#',!+<>").run (lib.showName n ++ '/' :: s) =
      some (lib.showName n, '/' :: s) :=
    run_takeWhile1 (fun c hc => decide_eq_true (h.chars c hc)) h.ne (stops_cons (by decide))
  rw [name, run_mapRes, hToken, bind_some, h.read]
  rfl

theorem addressRule_valid (h : (addressRule lib).run s = some (rule, r)) : Valid rule.config := by
  simp only [addressRule, run_bind, bind_eq_some_iff] at h
  obtain ⟨x, -, y, hValue, hEq⟩ := h
  cases hEq
  exact addressRuleValue_valid hValue

def asRule : ConfigItem → Option AddressRule
  | .Address rule => some rule
  | _ => none

theorem eq_of_asRule {item : ConfigItem} (h : asRule item = some rule) : item = .Address rule := by
  cases item
  case Address rule' => exact congrArg _ (some.inj h)
  all_goals cases h

/-- The parser gives other items than rules for addresses. -/
def NoRule (p : Parser ConfigItem) : Prop :=
  ∀ s item r, p.run s = some (item, r) → asRule item = none

theorem noRule_map {α : Type} {item : α → ConfigItem} (p : Parser α)
    (h : ∀ a, asRule (item a) = none) : NoRule (item <$> p) := by
  intro s x r hRun
  rw [run_map] at hRun
  obtain ⟨y, -, hEq⟩ := map_eq_some_iff.mp hRun
  cases hEq
  exact h y.1

theorem noRule_directive {d : Directive} (h : NoRule d.item) : NoRule d.parser := by
  intro s item r hRun
  simp only [Directive.parser, preceded, run_bind, bind_eq_some_iff] at hRun
  obtain ⟨x, -, hItem⟩ := hRun
  exact h x.2 item r hItem

theorem noRule_alt {ps : List (Parser ConfigItem)} (h : ∀ p ∈ ps, NoRule p) : NoRule (alt ps) := by
  intro s item r hRun
  obtain ⟨p, hp, hFirst⟩ := alt_run_eq_some hRun
  exact h p hp s item r hFirst

theorem noRule_directives {ds : List Directive} (h : ∀ d ∈ ds, NoRule d.item) :
    NoRule (alt (ds.map Directive.parser)) := by
  refine noRule_alt ?_
  intro p hp
  obtain ⟨d, hd, rfl⟩ := mem_map.mp hp
  exact noRule_directive (h d hd)

/-- All directives but the first give something else than a rule for addresses. -/
theorem noRule_others (d : Directive)
    (hd : d ∈ (group1 lib).tail ++ group2 lib ++ group2b lib ++ group2c lib ++ group3 lib ++
      group4 lib ++ group5) : NoRule d.item := by
  have hEnd : NoRule (pure .GroupEnd) := by
    intro s item r hRun
    cases hRun
    rfl
  revert d
  all_goals
    repeat' first
      | exact forall_mem_nil _
      | refine forall_mem_cons.mpr ⟨noRule_map _ fun _ => rfl, ?_⟩
      | refine forall_mem_cons.mpr ⟨hEnd, ?_⟩

theorem address_valid
    (h : (config "address" .Address (addressRule lib)).parser.run s = some (.Address rule, r)) :
    Valid rule.config := by
  simp only [Directive.parser, config, preceded, run_bind, run_map, bind_eq_some_iff,
    map_eq_some_iff] at h
  obtain ⟨x, -, y, ⟨z, -, hRule⟩, hEq⟩ := h
  cases hEq
  exact addressRule_valid hRule

/-- An address rule read from a line has a valid value. -/
theorem directive_valid (h : (directive lib).run s = some (.Address rule,
    r)) : Valid rule.config := by
  have hNot : ∀ {p : Parser ConfigItem}, NoRule p → p.run s ≠ some (.Address rule, r) :=
    fun hp hRun => absurd (hp s _ r hRun) (some_ne_none rule)
  have hOther : ∀ ds : List Directive, (∀ d ∈ ds, d ∈ (group1 lib).tail ++ group2 lib ++
      group2b lib ++ group2c lib ++ group3 lib ++ group4 lib ++ group5) →
      NoRule (alt (ds.map Directive.parser)) :=
    fun ds hds => noRule_directives fun d hd => noRule_others d (hds d hd)
  obtain ⟨p, hp, hRun⟩ := alt_run_eq_some h
  simp only [mem_cons, not_mem_nil, or_false] at hp
  rcases hp with rfl | rfl | rfl | rfl | rfl | rfl | rfl
  · obtain ⟨q, hq, hFirst⟩ := alt_run_eq_some hRun
    obtain ⟨d, hd, rfl⟩ := mem_map.mp hq
    have hSplit : group1 lib = config "address" .Address (addressRule lib) :: (group1 lib).tail :=
      rfl
    rw [hSplit] at hd
    rcases mem_cons.mp hd with rfl | hTail
    · exact address_valid hFirst
    · have hMem : d ∈ (group1 lib).tail ++ group2 lib ++ group2b lib ++ group2c lib ++ group3 lib ++
          group4 lib ++ group5 := by simp [hTail]
      exact absurd hFirst (hNot (noRule_directive (noRule_others d hMem)))
  · exact absurd hRun (hNot (hOther _ (by simp +contextual)))
  · exact absurd hRun (hNot (hOther _ (by simp +contextual)))
  · exact absurd hRun (hNot (hOther _ (by simp +contextual)))
  · exact absurd hRun (hNot (hOther _ (by simp +contextual)))
  · exact absurd hRun (hNot (hOther _ (by simp +contextual)))
  · refine absurd hRun (hNot (noRule_alt (forall_mem_append.mpr ⟨?_, ?_⟩)))
    · intro q hq
      obtain ⟨d, hd, rfl⟩ := mem_map.mp hq
      have hMem : d ∈ (group1 lib).tail ++ group2 lib ++ group2b lib ++ group2c lib ++ group3 lib ++
          group4 lib ++ group5 := by simp [hd]
      exact noRule_directive (noRule_others d hMem)
    · simp only [forall_mem_cons]
      exact ⟨noRule_map _ fun _ => rfl, noRule_map _ fun _ => rfl, forall_mem_nil _⟩

/-- What the parser of a line says of the comments and rules it finds. -/
def WellRead : ConfigLine → Prop
  | .Config item comment =>
    (∀ rule, item = .Address rule → Valid rule.config) ∧ ∀ text ∈ comment, CommentText text
  | .Comment text => ∃ body, (∀ c ∈ body, isLineBreak c = false) ∧ text = trimEnd ('#' :: body)
  | .EmptyLine => True
  | .Eof => True

/-- Every line that is read is well read. -/
theorem wellRead_of_parseLine {line : ConfigLine} (h : (parseLine lib).run s = some (line, r)) :
    WellRead line := by
  obtain ⟨p, hp, hRun⟩ := alt_run_eq_some h
  simp only [mem_cons, not_mem_nil, or_false] at hp
  rcases hp with rfl | rfl | rfl | rfl
  · simp only [preceded, run_bind, bind_eq_some_iff] at hRun
    obtain ⟨x, ⟨y, -, hDirective⟩, z, hTail, hEq⟩ := hRun
    cases hEq
    refine ⟨?_, commentText_of_lineTail hTail⟩
    intro rule hRule
    obtain ⟨item, r'⟩ := x
    cases hRule
    exact directive_valid hDirective
  · simp only [preceded, run_map, run_bind, map_eq_some_iff, bind_eq_some_iff] at hRun
    obtain ⟨x, ⟨y, -, hComment⟩, hEq⟩ := hRun
    cases hEq
    obtain ⟨body, -, hBody, hText⟩ := of_run_comment hComment
    exact ⟨body, hBody, hText⟩
  · rw [value, run_map] at hRun
    obtain ⟨x, -, hEq⟩ := map_eq_some_iff.mp hRun
    cases hEq
    trivial
  · rw [value, run_map] at hRun
    obtain ⟨x, -, hEq⟩ := map_eq_some_iff.mp hRun
    cases hEq
    trivial

theorem trimEnd_mark (body : List Char) : trimEnd ('#' :: body) = '#' :: trimEnd body := by
  have hMark : isWhitespace '#' = false := by decide
  simp only [trimEnd, reverse_cons, dropWhile_append]
  split
  · rename_i hEmpty
    have hNil : body.reverse.dropWhile isWhitespace = [] := isEmpty_iff.mp hEmpty
    simp [hNil, hMark]
  · simp

theorem trimEnd_subset (s : List Char) : trimEnd s ⊆ s := by
  have hPrefix := rdropWhile_prefix isWhitespace s
  exact hPrefix.subset

/-- A comment is read back. -/
theorem parseLine_comment {body : List Char} (h : ∀ c ∈ body, isLineBreak c = false) :
    (parseLine lib).run (trimEnd ('#' :: body)) = some (.Comment (trimEnd ('#' :: body)), []) := by
  have hTrimmed : ∀ c ∈ trimEnd body, isLineBreak c = false :=
    fun c hc => h c (trimEnd_subset body hc)
  have hUnlettered : Unlettered ('#' :: trimEnd body) := by
    intro c hc
    cases hc
    decide
  have hStart : space0.run ('#' :: trimEnd body) = some ([], '#' :: trimEnd body) :=
    run_takeWhile_of_stops hUnlettered.stops
  have hTwice : trimEnd ('#' :: trimEnd body) = '#' :: trimEnd body := by
    rw [trimEnd_mark]
    exact congrArg _ (rdropWhile_idempotent isWhitespace body)
  rw [trimEnd_mark]
  refine (alt_run_of_none ?_).trans (alt_run_of_some ?_)
  · rw [run_bind, preceded, run_bind, hStart, bind_some, directive_run_none hUnlettered]
    rfl
  · rw [run_map, preceded, run_bind, hStart, bind_some, comment_run hTrimmed,
      map_some, hTwice]

end SmartDns.Ports.RuleLines
