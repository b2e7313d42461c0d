import SmartDns.Ports.RuleLines
import SmartDns.Verified.Effect

/-!
# The address rules of the HTTP interface

Address rules made through the HTTP interface are kept in a file of their own. A call
parses the file, adds a rule to its lines or takes the rules of a domain out, drops the
lines that are neither rules nor comments nor empty, and prints what is left over the
file. It does not look at what the parser has left of the text: the parser of a file
stops at the first line of which it understands a beginning only, and what follows is lost.

What the file says is what its lines say one by one, which is how it is loaded. A rewrite
keeps this as far as the parser of the file sees the same rules and comments, no comment
stands after another directive, and the domain of every rule that is written is read back
from its text.
-/

namespace SmartDns.Ports.AddressApi

open Verified Parser DomainName DnsMessage RuleTree RuleSources ConfigValues ConfigText Option
  LineParsing AddressText RuleLines
open List

/-! ## What a file says -/

/-- A rule with the comment after it, or a comment. -/
inductive Entry where
  | rule (rule : AddressRule) (comment : Option (List Char))
  | comment (text : List Char)

def entry : ConfigLine → Option Entry
  | .Config item comment =>
    match asRule item with
    | some rule => some (.rule rule comment)
    | none => comment.map .comment
  | .Comment text => some (.comment text)
  | .EmptyLine => none
  | .Eof => none

/-- `BufRead::lines`. -/
def textLines : List Char → List (List Char)
  | [] => []
  | c :: s =>
    if c = '\n' then [] :: textLines s
    else if c = '\r' ∧ s.head? = some '\n' then textLines s
    else
      match textLines s with
      | [] => [[c]]
      | line :: lines => (c :: line) :: lines

variable (lib : TextLib) (other : ConfigItem → List Char)

/-- The entry of one line, whatever is left of it. -/
def lineEntry (line : List Char) : Option Entry :=
  ((parseLine lib).run line).bind fun x => entry x.1

/-- The rules and comments of a text, line by line. -/
def lineEntries (text : List Char) : List Entry := (textLines text).filterMap (lineEntry lib)

/-- The lines that the parser of files finds in a text. -/
def fileLines (text : List Char) : List ConfigLine :=
  match (parseFile lib).run text with
  | some (config, _) => config
  | none => []

/-! ## Calls -/

/-- A call, with the texts of its body read. -/
inductive Call where
  | create (rule : AddressRule)
  | delete (domain : Domain)

/-- The body of a request. -/
inductive Request where
  | create (domain address : List Char)
  | delete (domain : List Char)

/-- `FromStr` by way of the parser. -/
def fromStr {α : Type} (p : Parser α) (s : List Char) : Option α := (p.run s).map Prod.fst

def Request.call : Request → Option Call
  | .create target address => do
    let target ← fromStr (domain lib) target
    let address ← fromStr addressRuleValue address
    pure (.create ⟨target, address⟩)
  | .delete target => do
    let target ← fromStr (domain lib) target
    pure (.delete target)

def ruleOf : ConfigLine → Option AddressRule
  | .Config item _ => asRule item
  | _ => none

def isRuleOf (target : Domain) (line : ConfigLine) : Bool :=
  (ruleOf line).any fun rule => rule.domain == target

/-- The lines that are written back. -/
def retained : ConfigLine → Bool
  | .Config item _ => (asRule item).isSome
  | .Comment _ => true
  | .EmptyLine => true
  | .Eof => false

/-- What `create` writes over a text; `none` is an error. -/
def createText (rule : AddressRule) (text : List Char) : Option (List Char) := do
  let (config, _) ← (parseFile lib).run text
  if config.any (isRuleOf rule.domain) then none
  else
    pure (showFile lib other
      ((config ++ [ConfigLine.Config (.Address rule) none]).filter retained))

/-- What `delete` writes over a text; `none` is an error. -/
def deleteText (target : Domain) (text : List Char) : Option (List Char) := do
  let (config, _) ← (parseFile lib).run text
  if config.any (isRuleOf target) then
    pure (showFile lib other ((config.filter fun line => !isRuleOf target line).filter retained))
  else none

/-- What a call writes over a file, if there is one. -/
def Call.rewrite : Call → Option (List Char) → Option (List Char)
  | .create rule, none => some (showItem lib other (.Address rule))
  | .create rule, some text => createText lib other rule text
  | .delete _, none => none
  | .delete target, some text => deleteText lib other target text

def Entry.isRuleOf (target : Domain) : Entry → Bool
  | .rule kept _ => kept.domain == target
  | .comment _ => false

/-- What a call is for. -/
def Call.apply : Call → List Entry → List Entry
  | .create rule, entries => entries ++ [.rule rule none]
  | .delete target, entries => entries.filter fun e => !e.isRuleOf target

/-! ## Handlers -/

/-- What a handler asks of the configuration and of the file system. -/
inductive FileOp where
  | managedDir
  | dirExists
  | createDir
  | fileExists
  | read
  | truncate
  | write (bytes : List UInt8)
  | reload

abbrev FileOp.Resp : FileOp → Type
  | .read => Option (List UInt8)
  | _ => Bool

inductive Reply where
  | Created
  | NoContent
  | NotFound
  | Failed
  deriving DecidableEq

def Reply.succeeded : Reply → Bool
  | .Created => true
  | .NoContent => true
  | _ => false

abbrev Handler := Prog FileOp FileOp.Resp Reply

def encode (text : List Char) : List UInt8 := text.flatMap String.utf8EncodeChar

/-- `read_to_string` refuses what is not UTF-8. -/
def decode (bytes : List UInt8) : Option (List Char) :=
  (ByteArray.utf8Decode? ⟨bytes.toArray⟩).map Array.toList

/-- `fs::write`, then `App::reload`. The file is emptied when it is opened, and written from its
start. -/
def save (text : List Char) (reply : Reply) : Handler :=
  .call .truncate fun opened =>
    bif opened then
      .call (.write (encode text)) fun written =>
        bif written then .call .reload fun reloaded => .done (bif reloaded then reply else .Failed)
        else .done .Failed
    else .done .Failed

/-- Read the file, and write what becomes of it. -/
def update (f : List Char → Option (List Char)) (reply refusal : Reply) : Handler :=
  .call .read fun bytes =>
    match bytes.bind decode with
    | none => .done .Failed
    | some text =>
      match f text with
      | none => .done refusal
      | some text => save text reply

/-- `create`, once there is a directory. -/
def createFile (rule : AddressRule) : Handler :=
  .call .fileExists fun exists_ =>
    bif exists_ then update (createText lib other rule) .Created .Failed
    else save (showItem lib other (.Address rule)) .Created

/-- The handler that adds a rule to the managed file. -/
def create (rule : AddressRule) : Handler :=
  .call .managedDir fun configured =>
    bif configured then
      .call .dirExists fun found =>
        bif found then createFile lib other rule
        else .call .createDir fun made => bif made then createFile lib other rule else .done .Failed
    else .done .NotFound

/-- The handler that removes a domain's rules. -/
def delete (target : Domain) : Handler :=
  .call .managedDir fun configured =>
    bif configured then
      .call .dirExists fun found =>
        bif found then
          .call .fileExists fun exists_ =>
            bif exists_ then update (deleteText lib other target) .NoContent .NotFound
            else .done .NotFound
        else .done .NotFound
    else .done .NotFound

def Call.handler : Call → Handler
  | .create rule => AddressApi.create lib other rule
  | .delete target => AddressApi.delete lib other target

/-! ### Alone on a disk -/

/-- What handlers share. -/
structure Disk where
  dir : Bool
  file : Option (List UInt8)

/-- The environment lets an operation succeed or fail; a failed write leaves a beginning. -/
inductive Answer where
  | ok
  | fails (written : Nat)

/-- Write from the start of the file, over what is there. -/
def overwrite (bytes file : List UInt8) : List UInt8 := bytes ++ file.drop bytes.length

/-- What a file operation does when no one else writes. -/
def Disk.exec (disk : Disk) (answer : Answer) : (o : FileOp) → o.Resp × Disk
  | .managedDir =>
    match answer with
    | .ok => (true, disk)
    | .fails _ => (false, disk)
  | .dirExists => (disk.dir, disk)
  | .createDir =>
    match answer with
    | .ok => (true, { disk with dir := true })
    | .fails _ => (false, disk)
  | .fileExists => (disk.file.isSome, disk)
  | .read =>
    match answer with
    | .ok => (disk.file, disk)
    | .fails _ => (none, disk)
  | .truncate =>
    match answer with
    | .ok => (true, { disk with file := some [] })
    | .fails _ => (false, disk)
  | .write bytes =>
    match answer with
    | .ok => (true, { disk with file := some (overwrite bytes (disk.file.getD [])) })
    | .fails n =>
      (false, { disk with file := some (overwrite (bytes.take n) (disk.file.getD [])) })
  | .reload =>
    match answer with
    | .ok => (true, disk)
    | .fails _ => (false, disk)

/-- A handler that has the disk for itself; the answers are used up one by one. -/
def alone (answers : Nat → Answer) (s : Disk × Nat) (o : FileOp) : Option (o.Resp × Disk × Nat) :=
  some ((s.1.exec (answers s.2) o).1, (s.1.exec (answers s.2) o).2, s.2 + 1)

/-- The text of the file, if there is one. -/
def Disk.text (disk : Disk) : Option (List Char) := disk.file.bind decode

variable {lib other}

/-- What is written to the file as UTF-8 is read back as it was. -/
theorem decode_encode (text : List Char) : decode (encode text) = some text := by
  have hBytes : (⟨(encode text).toArray⟩ : ByteArray) = text.utf8Encode := by
    ext1
    simp [encode, utf8Encode]
  rw [decode, hBytes, utf8Decode?_utf8Encode]
  rfl

variable {text : List Char}

section Runs

variable {answers : Nat → Answer} {disk disk' : Disk} {n n' : Nat} {reply reply' : Reply}

variable (hOk : reply.succeeded = true)

include hOk

end Runs

/-! ## Printed lines -/

theorem textLines_cons {line : List Char} (hLine : '\n' ∉ line) (hEnd : line.getLast? ≠ some '\r')
    (s : List Char) : textLines (line ++ '\n' :: s) = line :: textLines s := by
  induction line with
  | nil => rfl
  | cons c line ih =>
    have hNe : c ≠ '\n' := fun h => hLine (by rw [h]; exact mem_cons_self)
    have hRest : '\n' ∉ line := fun h => hLine (mem_cons_of_mem c h)
    -- a carriage return is not the last character, and no line feed follows it
    have hReturn : ¬(c = '\r' ∧ (line ++ '\n' :: s).head? = some '\n') := by
      rintro ⟨rfl, hHead⟩
      cases line with
      | nil => exact hEnd rfl
      | cons d line =>
        cases hHead
        exact hRest mem_cons_self
    have hTail : textLines (line ++ '\n' :: s) = line :: textLines s := by
      refine ih hRest ?_
      cases line with
      | nil => exact nofun
      | cons d line => exact hEnd
    rw [cons_append, textLines, if_neg hNe, if_neg hReturn, hTail]

theorem textLines_single {line : List Char} (hLine : '\n' ∉ line) (hNe : line ≠ []) :
    textLines line = [line] := by
  induction line with
  | nil => exact absurd rfl hNe
  | cons c line ih =>
    have hFeed : c ≠ '\n' := fun h => hLine (by rw [h]; exact mem_cons_self)
    have hRest : '\n' ∉ line := fun h => hLine (mem_cons_of_mem c h)
    have hReturn : ¬(c = '\r' ∧ line.head? = some '\n') := by
      rintro ⟨-, hHead⟩
      exact hRest (mem_of_head? hHead)
    rw [textLines, if_neg hFeed, if_neg hReturn]
    cases line with
    | nil => rfl
    | cons d line => rw [ih hRest (cons_ne_nil d line)]

/-- Printed, the line is one line that says what the line is. -/
structure Printed (lib : TextLib) (line : ConfigLine) (text : List Char) : Prop where
  feed : '\n' ∉ text
  last : text.getLast? ≠ some '\r'
  entry : lineEntry lib text = entry line

theorem not_isLineBreak_showAddress {v : AddressRuleValue} :
    ∀ c ∈ showAddress v, isLineBreak c = false := by
  cases v with
  | SOA | SOAv4 | SOAv6 | IGN | IGNv4 | IGNv6 => exact all_iff_forall_prop.mp (by decide)
  | Addr v4 v6 =>
    have hChar : ∀ c, isAddressChar c = true → isLineBreak c = false := by
      intro c hc
      by_contra hBreak
      simp only [isLineBreak, Bool.not_eq_false, Bool.or_eq_true, beq_iff_eq] at hBreak
      rcases hBreak with rfl | rfl
      · cases hc
      · cases hc
    intro c hc
    rw [showAddress_addr] at hc
    cases hAddrs : addressesOf v4 v6 with
    | nil =>
      rw [hAddrs] at hc
      cases hc
    | cons addr addrs =>
      rw [hAddrs, map_cons, intercalate_cons, flatMap_map, mem_append,
        mem_flatMap] at hc
      rcases hc with hFirst | ⟨addr', -, hLater⟩
      · exact hChar c (isAddressChar_of_mem c hFirst)
      · rcases mem_cons.mp hLater with rfl | hText
        · rfl
        · exact hChar c (isAddressChar_of_mem c hText)

theorem not_isLineBreak_comment {comment : Option (List Char)}
    (h : ∀ text ∈ comment, CommentText text) : ∀ c ∈ comment.getD [], isLineBreak c = false := by
  intro c hc
  cases comment with
  | none => cases hc
  | some text =>
    obtain ⟨blanks, body, rfl, -, hBlank, hBody⟩ := h text rfl
    rcases mem_append.mp hc with hSpace | hRest
    · have hSpace' := hBlank c hSpace
      simp only [isSpace, Bool.or_eq_true, beq_iff_eq] at hSpace'
      rcases hSpace' with rfl | rfl
      · rfl
      · rfl
    · rcases mem_cons.mp hRest with rfl | hMem
      · rfl
      · exact hBody c hMem

theorem ne_feed_of_not_isLineBreak {c : Char} (h : isLineBreak c = false) : c ≠ '\n' := by
  rintro rfl
  cases h

/-- A text that ends without a line break is not one of which a carriage return is stripped. -/
theorem getLast?_ne_return {tail : List Char} (hNe : tail ≠ [])
    (hTail : ∀ c ∈ tail, isLineBreak c = false) : (text ++ tail).getLast? ≠ some '\r' := by
  rw [getLast?_append_of_ne_nil text hNe]
  intro hLast
  cases hTail '\r' (mem_of_getLast? hLast)

/-- The line printed for a rule parses to that rule. -/
theorem printed_rule {rule : AddressRule} {comment : Option (List Char)}
    (hRead : ReadsBack lib rule comment) (hValid : Valid rule.config)
    (hComment : ∀ text ∈ comment, CommentText text) :
    Printed lib (.Config (.Address rule) comment)
      (showItem lib other (.Address rule) ++ comment.getD []) := by
  -- everything after the domain is free of line breaks
  have hTail : ∀ c ∈ '/' :: (showAddress rule.config ++ comment.getD []),
      isLineBreak c = false := by
    intro c hc
    rcases mem_cons.mp hc with rfl | hRest
    · rfl
    · rcases mem_append.mp hRest with hValue | hText
      · exact not_isLineBreak_showAddress c hValue
      · exact not_isLineBreak_comment hComment c hText
  refine ⟨?_, ?_, ?_⟩
  · rw [showItem_append, showRule_append]
    intro hFeed
    have hKeyword : '\n' ∉ "address".toList := by decide
    simp only [mem_append, mem_cons] at hFeed
    rcases hFeed with hMem | hMem | hMem | hMem | hMem
    · exact hKeyword hMem
    · cases hMem
    · cases hMem
    · exact hRead.line hMem
    · exact ne_feed_of_not_isLineBreak (hTail '\n' (by simpa using hMem)) rfl
  · rw [showItem_append, showRule_append]
    have hSplit : "address".toList ++ ' ' :: '/' :: (showDomain lib rule.domain ++
        '/' :: (showAddress rule.config ++ comment.getD [])) =
        ("address".toList ++ ' ' :: '/' :: showDomain lib rule.domain) ++
          '/' :: (showAddress rule.config ++ comment.getD []) := by simp
    rw [hSplit]
    exact getLast?_ne_return (cons_ne_nil _ _) hTail
  · rw [lineEntry, parseLine_rule hRead hValid hComment]
    rfl

theorem printed_comment {body : List Char} (h : ∀ c ∈ body, isLineBreak c = false) :
    Printed lib (.Comment (trimEnd ('#' :: body))) (trimEnd ('#' :: body)) := by
  have hAll : ∀ c ∈ '#' :: trimEnd body, isLineBreak c = false := by
    intro c hc
    rcases mem_cons.mp hc with rfl | hMem
    · rfl
    · exact h c (trimEnd_subset body hMem)
  refine ⟨?_, ?_, ?_⟩
  · rw [trimEnd_mark]
    exact fun hMem => ne_feed_of_not_isLineBreak (hAll '\n' hMem) rfl
  · rw [trimEnd_mark, ← nil_append ('#' :: trimEnd body)]
    exact getLast?_ne_return (cons_ne_nil _ _) hAll
  · rw [lineEntry, parseLine_comment h]
    rfl

theorem printed_empty : Printed lib .EmptyLine [] := by
  refine ⟨not_mem_nil, nofun, ?_⟩
  rfl

/-- Printed lines say, one by one, what they are. -/
theorem lineEntries_showFile {lines : List ConfigLine}
    (h : ∀ line ∈ lines, ∃ text, showLine lib other line = some text ∧ Printed lib line text) :
    lineEntries lib (showFile lib other lines) = lines.filterMap entry := by
  induction lines with
  | nil => rfl
  | cons line lines ih =>
    obtain ⟨text, hText, hPrinted⟩ := h line mem_cons_self
    have hFile : showFile lib other (line :: lines) =
      text ++ '\n' :: showFile lib other lines := by
      rw [showFile, filterMap_cons, hText, flatMap_cons, append_assoc]
      rfl
    have hRest := ih fun l hl => h l (mem_cons_of_mem line hl)
    rw [lineEntries] at hRest ⊢
    rw [hFile, textLines_cons hPrinted.feed hPrinted.last, filterMap_cons,
      filterMap_cons, hPrinted.entry, hRest]

/-! ## Rewriting -/

/-- What a rewrite needs of the text before it. -/
structure Faithful (lib : TextLib) (call : Call) (text : List Char) : Prop where
  /-- The parser of files finds the rules and comments that are there line by line. -/
  whole : (fileLines lib text).filterMap entry = lineEntries lib text
  /-- Comments stand alone or after rules. -/
  comments : ∀ item comment, .Config item (some comment) ∈ fileLines lib text →
    (asRule item).isSome = true
  /-- The domains of the rules that stay are read back. -/
  domains : ∀ rule comment, .Config (.Address rule) comment ∈ fileLines lib text →
    (∀ target, call = .delete target → (rule.domain == target) = false) → ReadsBack lib rule comment
  /-- So is the domain of the rule that is added. -/
  created : ∀ rule, call = .create rule → ReadsBack lib rule none

/-- The rules and comments that a rewrite takes over from a text. -/
def keptEntries (lib : TextLib) (text : List Char) : List Entry :=
  ((fileLines lib text).filter retained).filterMap entry

/-- The domains of the rules that a rewrite writes are read back. -/
structure WrittenBack (lib : TextLib) (call : Call) (text : List Char) : Prop where
  domains : ∀ rule comment, .Config (.Address rule) comment ∈ fileLines lib text →
    (∀ target, call = .delete target → (rule.domain == target) = false) → ReadsBack lib rule comment
  created : ∀ rule, call = .create rule → ReadsBack lib rule none

/-- A line that is not written back says nothing. -/
theorem entry_eq_none {line : ConfigLine} (hDropped : retained line = false)
    (hComment : ∀ item comment, line = .Config item (some comment) →
      (asRule item).isSome = true) : entry line = none := by
  cases line with
  | Config item comment =>
    have hNone : asRule item = none :=
      isSome_eq_false_iff.mp hDropped |> isNone_iff_eq_none.mp
    cases comment with
    | none => simp only [entry, hNone, map_none]
    | some text => exact absurd (hDropped.symm.trans (hComment item text rfl)) Bool.false_ne_true
  | Comment text => cases hDropped
  | EmptyLine | Eof => rfl

theorem filterMap_retained {lines : List ConfigLine}
    (h : ∀ item comment, .Config item (some comment) ∈ lines → (asRule item).isSome = true) :
    (lines.filter retained).filterMap entry = lines.filterMap entry := by
  induction lines with
  | nil => rfl
  | cons line lines ih =>
    have hRest := ih fun item comment hMem => h item comment (mem_cons_of_mem line hMem)
    cases hRetained : retained line with
    | true => rw [filter_cons_of_pos hRetained, filterMap_cons, filterMap_cons,
        hRest]
    | false =>
      have hNone : entry line = none := by
        refine entry_eq_none hRetained ?_
        rintro item comment rfl
        exact h item comment mem_cons_self
      rw [filter_cons_of_neg (by simp [hRetained]), filterMap_cons_none hNone, hRest]

theorem any_entry (target : Domain) (line : ConfigLine) :
    (entry line).any (Entry.isRuleOf target) = isRuleOf target line := by
  cases line with
  | Config item comment =>
    cases hRule : asRule item with
    | some rule => simp only [entry, isRuleOf, ruleOf, hRule, any_some, Entry.isRuleOf]
    | none =>
      simp only [entry, isRuleOf, ruleOf, hRule]
      cases comment with
      | none | some => rfl
  | Comment | EmptyLine | Eof => rfl

/-- The rules of a domain are taken out of the lines as they are out of the entries. -/
theorem filterMap_deleted (target : Domain) (lines : List ConfigLine) :
    (lines.filter fun line => !isRuleOf target line).filterMap entry =
      (lines.filterMap entry).filter fun e => !e.isRuleOf target := by
  induction lines with
  | nil => rfl
  | cons line lines ih =>
    have hAny := any_entry target line
    cases hEntry : entry line with
    | none =>
      rw [hEntry] at hAny
      rw [filter_cons_of_pos (by simp [← hAny]), filterMap_cons_none hEntry,
        filterMap_cons_none hEntry, ih]
    | some e =>
      rw [hEntry] at hAny
      rw [filterMap_cons_some hEntry]
      cases hRule : e.isRuleOf target with
      | true =>
        rw [filter_cons_of_neg (by simp [← hAny, hRule]),
          filter_cons_of_neg (by simp [hRule]), ih]
      | false =>
        rw [filter_cons_of_pos (by simp [← hAny, hRule]),
          filter_cons_of_pos (by simp [hRule]), filterMap_cons_some hEntry, ih]

/-- The lines of a parsed file that are written back are printed as they are. -/
theorem printed_of_mem {r : List Char} {config : List ConfigLine}
    (hParse : (parseFile lib).run text = some (config, r)) {line : ConfigLine}
    (hMem : line ∈ config) (hRetained : retained line = true)
    (hRead : ∀ rule comment, line = .Config (.Address rule) comment → ReadsBack lib rule comment) :
    ∃ shown, showLine lib other line = some shown ∧ Printed lib line shown := by
  obtain ⟨s, r', hLine⟩ := of_mem_separatedList0 hParse line hMem
  have hWell := wellRead_of_parseLine hLine
  cases line with
  | Config item comment =>
    obtain ⟨rule, hRule⟩ := isSome_iff_exists.mp hRetained
    cases eq_of_asRule hRule
    exact ⟨_, rfl, printed_rule (hRead rule comment rfl) (hWell.1 rule rfl) hWell.2⟩
  | Comment text =>
    obtain ⟨body, hBody, rfl⟩ := hWell
    exact ⟨_, rfl, printed_comment hBody⟩
  | EmptyLine => exact ⟨[], rfl, printed_empty⟩
  | Eof => cases hRetained

theorem mem_fileLines {r : List Char} {config : List ConfigLine}
    (hParse : (parseFile lib).run text = some (config, r)) : fileLines lib text = config := by
  rw [fileLines, hParse]

variable {after : List Char}

/-- Creating a rule adds its entry to the entries of the text. -/
theorem createText_entries {rule : AddressRule}
    (hText : createText lib other rule text = some after) (hValid : Valid rule.config)
    (h : WrittenBack lib (.create rule) text) :
    lineEntries lib after = (Call.create rule).apply (keptEntries lib text) := by
  obtain ⟨⟨config, r⟩, hParse, hRest⟩ := bind_eq_some_iff.mp hText
  obtain ⟨-, hAfter⟩ := ite_none_left_eq_some.mp hRest
  cases hAfter
  have hLines := mem_fileLines hParse
  have hCreated : Printed lib (.Config (.Address rule) none)
      (showItem lib other (.Address rule) ++ []) :=
    printed_rule (h.created rule rfl) hValid nofun
  rw [lineEntries_showFile, filter_append, filterMap_append, ← hLines]
  · rfl
  · intro line hMem
    obtain ⟨hMem, hRetained⟩ := mem_filter.mp hMem
    rcases mem_append.mp hMem with hOld | hNew
    · refine printed_of_mem hParse hOld hRetained ?_
      rintro rule' comment rfl
      exact h.domains rule' comment (hLines ▸ hOld) nofun
    · cases mem_singleton.mp hNew
      exact ⟨_, rfl, hCreated⟩

/-- Deleting removes the target's entries and keeps the others. -/
theorem deleteText_entries {target : Domain} (hText : deleteText lib other target text = some after)
    (h : WrittenBack lib (.delete target) text) :
    lineEntries lib after = (Call.delete target).apply (keptEntries lib text) := by
  obtain ⟨⟨config, r⟩, hParse, hRest⟩ := bind_eq_some_iff.mp hText
  obtain ⟨-, hAfter⟩ := ite_none_right_eq_some.mp hRest
  cases hAfter
  have hLines := mem_fileLines hParse
  rw [lineEntries_showFile, filter_comm, filterMap_deleted, ← hLines]
  · rfl
  · intro line hMem
    obtain ⟨hMem, hRetained⟩ := mem_filter.mp hMem
    obtain ⟨hOld, hKept⟩ := mem_filter.mp hMem
    refine printed_of_mem hParse hOld hRetained ?_
    rintro rule comment rfl
    refine h.domains rule comment (hLines ▸ hOld) ?_
    simpa [isRuleOf, ruleOf, asRule] using hKept

variable {call : Call}

/-- What a rewrite does to the entries that it takes over. -/
theorem rewrite_kept {file : Option (List Char)}
    (hRewrite : call.rewrite lib other file = some after)
    (hValid : ∀ rule, call = .create rule → Valid rule.config)
    (h : WrittenBack lib call (file.getD [])) :
    lineEntries lib after = call.apply (keptEntries lib (file.getD [])) := by
  cases call with
  | create rule =>
    cases file with
    | none =>
      cases hRewrite
      have hPrinted : Printed lib (.Config (.Address rule) none)
          (showItem lib other (.Address rule) ++ []) :=
        printed_rule (h.created rule rfl) (hValid rule rfl) nofun
      rw [append_nil] at hPrinted
      have hNe : showItem lib other (.Address rule) ≠ [] := by
        exact append_ne_nil_of_right_ne_nil _ (cons_ne_nil _ _)
      rw [lineEntries, textLines_single hPrinted.feed hNe, filterMap_cons_some hPrinted.entry]
      rfl
    | some text => exact createText_entries hRewrite (hValid rule rfl) h
  | delete target =>
    cases file with
    | none => cases hRewrite
    | some text => exact deleteText_entries hRewrite h

/-- What it does to the entries of the file, if it takes all of them over. -/
theorem rewrite_entries {file : Option (List Char)}
    (hRewrite : call.rewrite lib other file = some after)
    (hValid : ∀ rule, call = .create rule → Valid rule.config)
    (h : Faithful lib call (file.getD [])) :
    lineEntries lib after = call.apply (lineEntries lib (file.getD [])) := by
  rw [rewrite_kept hRewrite hValid ⟨h.domains, h.created⟩, keptEntries, filterMap_retained, h.whole]
  exact h.comments

/-- The rule of an accepted request has a value the printer can write. -/
theorem valid_of_call {request : Request} (h : request.call lib = some call) :
    ∀ rule, call = .create rule → Valid rule.config := by
  rintro rule rfl
  cases request with
  | create target address =>
    simp only [Request.call, fromStr, bind_eq_bind, bind_eq_some_iff,
      map_eq_some_iff] at h
    obtain ⟨d, -, v, ⟨x, hValue, hv⟩, hEq⟩ := h
    cases hEq
    rw [← hv]
    exact addressRuleValue_valid hValue
  | delete target =>
    simp only [Request.call, bind_eq_bind, bind_eq_some_iff] at h
    obtain ⟨d, -, hEq⟩ := h
    cases hEq

def nameOf (first second : Char) : Name :=
  ⟨[[UInt8.ofNat first.toNat], [UInt8.ofNat second.toNat]], false⟩

/-- A rule for one name of two letters. -/
def ruleFor (first second : Char) (value : AddressRuleValue) : AddressRule :=
  ⟨.Name (.Full (nameOf first second)), value⟩

end SmartDns.Ports.AddressApi
