import SmartDns.Ports.GroupMembership
import SmartDns.Ports.LineParsing

/-!
# Loading text

`RuntimeConfigBuilder::config` parses the text of a line and matches on the item.
The parser has an item for every directive, the loader a line for those that
have to do with rules, groups and files; `lineOf` leads from the one to the other,
and a text without an item is a line that does nothing.

So the lines that a build processes are those that the parser has read off the
texts of files, or off the texts that were given to the builder, and every rule of
a group comes from one of them.
-/

namespace SmartDns.Ports.TextLoading

open ConfigValues ConfigLoader LineParsing GroupMembership List

/-- What the loader's lines have in the place of a text or of a record's fields. -/
structure Readings where
  path : String → Path
  srv : SRV → List UInt8
  https : HttpsRecordText → RuleTree.HttpsRecordRule
  nftset : ConfigForIP → String

/-- A line for a domain, with another value. -/
def mapValue {α β : Type} (f : α → β) (rule : RuleSources.ConfigForDomain α) :
    RuleSources.ConfigForDomain β :=
  ⟨rule.domain, f rule.config⟩

/-- What an item of the parser is to the loader. -/
def lineOf (reading : Readings) : ConfigText.ConfigItem → ConfigItem
  | .Address rule => .Address rule
  | .ForwardRule rule => .ForwardRule rule
  | .DomainRule rule => .DomainRule rule
  | .CNAME rule => .CNAME rule
  | .SrvRecord rule => .SrvRecord (mapValue reading.srv rule)
  | .HttpsRecord rule => .HttpsRecord (mapValue reading.https rule)
  | .TxtRecord rule => .TxtRecord (mapValue (fun s => s.toList.flatMap String.utf8EncodeChar) rule)
  | .IpSet rule => .IpSet rule
  | .NftSet rule => .NftSet (mapValue (List.map reading.nftset) rule)
  | .GroupMatch groups => .GroupMatch groups.group groups.domains groups.clients
  | .ClientRule rule => .ClientRule rule
  | .DomainSetProvider (.File name file) => .DomainSetProvider (.File name (reading.path file))
  | .DomainSetProvider (.Http name url _) => .DomainSetProvider (.Http name url)
  | .ConfFile path => .ConfFile (reading.path path)
  | .GroupBegin name => .GroupBegin name
  | .GroupEnd => .GroupEnd
  | _ => .Other

variable (lib : TextLib) (reading : Readings)

/-- The line of a text. -/
def readLine (text : List Char) : ConfigItem :=
  match loadLine lib text with
  | .applied item => lineOf reading item
  | _ => .Other

/-- The file system, with files that are texts. -/
def withTexts (fs : FileSystem) (texts : Path → Option (List (List Char))) : FileSystem :=
  { fs with openLines := fun p => (texts p).map (List.map (readLine lib reading)) }

/-- A line of a text that was given or is in a file. -/
def FromText (given : List (List Char)) (texts : Path → Option (List (List Char)))
    (line : ConfigItem) : Prop :=
  ∃ text, (text ∈ given ∨ ∃ p lines, texts p = some lines ∧ text ∈ lines) ∧
    line = readLine lib reading text

variable {lib reading} {fs : FileSystem} {orders : Orders}
  {given : List (List Char)} {texts : Path → Option (List (List Char))}

/-- Every line of the history was read from a line of text. -/
theorem fromText_kept :
    Kept (withTexts lib reading fs texts) orders (FromText lib reading given texts)
      (fun _ => True)
      (fun b => ∀ line, .line line ∈ b.history → FromText lib reading given texts line) where
  line := by
    intro b line hLine hb line' hMem
    obtain ⟨-, -, -, -, hHistory⟩ :=
      ConfigLoading.processLine_files (withTexts lib reading fs texts) orders b line
    rw [hHistory] at hMem
    rcases mem_append.mp hMem with hOld | hNew
    · exact hb line' hOld
    · cases mem_singleton.mp hNew
      exact hLine
  opened := by
    intro b file lines hb _ hOpen
    refine ⟨?_, ?_⟩
    · intro line hMem
      rcases mem_append.mp hMem with hOld | hNew
      · exact hb line hOld
      · cases mem_singleton.mp hNew
    · obtain ⟨found, hFound, rfl⟩ := Option.map_eq_some_iff.mp hOpen
      intro line hMem
      obtain ⟨text, hText, rfl⟩ := mem_map.mp hMem
      exact ⟨⟨text, .inr ⟨_, found, hFound, hText⟩, rfl⟩, fun _ _ => trivial⟩
  included := fun b file hb _ => hb

/-- **From text to rules**: what a build over texts has loaded are the lines that the parser reads
off these texts, and the rules of every group are those of its lines. -/
theorem loaded_from_text {confDir confFile : Option Path} {n : Nat} {cfg : LoadedConfig}
    (h : build (withTexts lib reading fs texts) orders
      ⟨confDir, confFile, given.map (readLine lib reading)⟩ n = some (.ok cfg)) :
    Membership cfg ∧ ∀ line, .line line ∈ cfg.history → FromText lib reading given texts line := by
  constructor
  · obtain ⟨b, hb, hEq⟩ := (groupInv_kept _ orders).build (fun _ _ => trivial)
      (groupInv_start _ _) h
    rw [hEq]
    exact membership_finish hb
  · have hGiven : ∀ line ∈ given.map (readLine lib reading),
        FromText lib reading given texts line := by
      intro line hMem
      obtain ⟨text, hText, rfl⟩ := mem_map.mp hMem
      exact ⟨text, .inl hText, rfl⟩
    obtain ⟨b, hb, hEq⟩ := fromText_kept.build hGiven (fun line hMem => nomatch hMem) h
    rw [hEq]
    exact hb

end SmartDns.Ports.TextLoading
