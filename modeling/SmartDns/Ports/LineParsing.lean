import SmartDns.Ports.ConfigText

/-!
# What the parser makes of a line

The parser of a line never fails. A line that is neither a directive nor a comment
is taken for an empty one, and a directive that understands the beginning of its
value only is taken with the part it understands. The caller looks at the item
alone and not at what is left of the line, so neither is reported.
-/

namespace SmartDns.Ports.LineParsing

open Verified Parser ConfigValues ConfigText List

variable {lib : TextLib}

/-! ## Where no directive starts -/

/-- Is the character a letter, in the sense of comparing keywords? -/
def isLetter (c : Char) : Bool := (lowerChar c).isAlpha

/-- A keyword starts with a letter. -/
def Keyword (t : String) : Prop := ∃ c cs, t = String.ofList (c :: cs) ∧ isLetter c = true

/-- A text that does not start with a letter or a blank. -/
def Unlettered (s : List Char) : Prop :=
  ∀ c, s.head? = some c → isLetter c = false ∧ isSpace c = false

variable {s : List Char}

/-- A keyword does not match a text that starts with no letter. -/
theorem tagNoCase_run_none {t : String} (ht : Keyword t) (hs : Unlettered s) :
    (tagNoCase t).run s = none := by
  obtain ⟨k, ks, rfl, hLetter⟩ := ht
  rw [tagNoCase, run_takeCount]
  cases s with
  | nil =>
    -- nothing to compare, but too short
    have hSize : (String.ofList (k :: ks)).utf8ByteSize ≠ 0 := by
      rw [Ne, String.utf8ByteSize_eq_zero_iff, String.ofList_eq_empty_iff]
      exact cons_ne_nil k ks
    obtain ⟨n, hn⟩ := Nat.exists_eq_succ_of_ne_zero hSize
    rw [hn]
    rfl
  | cons c rest =>
    have hNe : lowerChar c ≠ lowerChar k := by
      intro hEq
      have hOther := (hs c rfl).1
      rw [isLetter, hEq] at hOther
      exact absurd (hOther.symm.trans hLetter) Bool.false_ne_true
    simp [hNe]

theorem preceded_run_none {α β : Type} {p : Parser α} {q : Parser β} (h : p.run s = none) :
    (preceded p q).run s = none := by
  simp [preceded, h]

theorem map_run_none {α β : Type} {f : α → β} {p : Parser α} (h : p.run s = none) :
    (f <$> p).run s = none := by
  simp [h]

theorem space0_run (s : List Char) :
    space0.run s = some (s.takeWhile isSpace, s.dropWhile isSpace) :=
  takeWhile_run isSpace s

theorem Unlettered.stops (hs : Unlettered s) : Stops isSpace s :=
  fun c hc => (hs c hc).2

/-- All directives with a keyword of their own. -/
def directives (lib : TextLib) : List Directive :=
  group1 lib ++ group2 lib ++ group2b lib ++ group2c lib ++ group3 lib ++ group4 lib ++ group5

/-- Every directive starts with a letter. -/
theorem keyword_of_mem {d : Directive} (hd : d ∈ directives lib) : Keyword d.keyword := by
  revert d
  simp only [directives, forall_mem_append]
  refine ⟨⟨⟨⟨⟨⟨?_, ?_⟩, ?_⟩, ?_⟩, ?_⟩, ?_⟩, ?_⟩
  all_goals
    repeat' first
      | exact forall_mem_nil _
      | refine forall_mem_cons.mpr ⟨⟨_, _, rfl, rfl⟩, ?_⟩

theorem bindAddrConfig_run_none (hs : Unlettered s) : (bindAddrConfig lib).run s = none := by
  have hProtocol : bindProtocol.run s = none := by
    refine alt_run_eq_none.mpr ?_
    repeat' first
      | exact forall_mem_nil _
      | refine forall_mem_cons.mpr
          ⟨map_run_none (tagNoCase_run_none ⟨_, _, rfl, rfl⟩ hs), ?_⟩
  simp [bindAddrConfig, preceded, space0_run, hs.stops.dropWhile_eq_self, hProtocol]

theorem nameServerInfo_run_none (hs : Unlettered s) : (nameServerInfo lib).run s = none := by
  rw [nameServerInfo, run_bind, Option.bind_eq_none_iff]
  intro x hx
  obtain ⟨p, hp, hRun⟩ := alt_run_eq_some hx
  revert p
  repeat' first
    | exact forall_mem_nil _
    | refine forall_mem_cons.mpr ⟨fun hRun => absurd hRun (by
        rw [serverLine, preceded_run_none (tagNoCase_run_none ⟨_, _, rfl, rfl⟩ hs)]
        exact nofun), ?_⟩

/-- Every directive starts with a letter. -/
theorem directive_run_none (hs : Unlettered s) : (directive lib).run s = none := by
  have hGroup : ∀ ds : List Directive, (∀ d ∈ ds, d ∈ directives lib) →
      ∀ p ∈ ds.map Directive.parser, p.run s = none := by
    intro ds hds p hp
    obtain ⟨d, hd, rfl⟩ := mem_map.mp hp
    exact preceded_run_none (tagNoCase_run_none (keyword_of_mem (hds d hd)) hs)
  refine alt_run_eq_none.mpr ?_
  simp only [forall_mem_cons]
  refine ⟨?_, ?_, ?_, ?_, ?_, ?_, ?_, forall_mem_nil _⟩
  all_goals refine alt_run_eq_none.mpr ?_
  · exact hGroup _ (by simp +contextual [directives])
  · exact hGroup _ (by simp +contextual [directives])
  · exact hGroup _ (by simp +contextual [directives])
  · exact hGroup _ (by simp +contextual [directives])
  · exact hGroup _ (by simp +contextual [directives])
  · exact hGroup _ (by simp +contextual [directives])
  · refine forall_mem_append.mpr ⟨hGroup _ (by simp +contextual [directives]), ?_⟩
    simp only [forall_mem_cons]
    exact ⟨map_run_none (bindAddrConfig_run_none hs), map_run_none (nameServerInfo_run_none hs),
      forall_mem_nil _⟩

/-! ## Lines -/

def Blank (s : List Char) : Prop := ∀ c ∈ s, isSpace c = true

/-- What `RuntimeConfigBuilder::config` does with a line. -/
inductive LineOutcome where
  | applied (item : ConfigItem)
  | ignored
  | reported

/-- `RuntimeConfigBuilder::config`, up to what applying an item does. -/
def loadLine (lib : TextLib) (line : List Char) : LineOutcome :=
  match parseConfig lib line with
  | some (some item, _) => .applied item
  | some (none, _) => .ignored
  | none => .reported

variable {line : List Char}

end SmartDns.Ports.LineParsing
