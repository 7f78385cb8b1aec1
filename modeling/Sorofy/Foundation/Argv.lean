import Sorofy.Foundation.Text

/-!
# Command lines

A program reads its arguments as options first and then operands: an argument with a dash and more
is an option, as long as none came that is not, and `--` ends the options.  Which options there are,
and how many of the arguments behind one belong to it, is the tool's (`Tool.take`).

* `Tool.read_written`: options that the tool takes are read back from what was written, whatever
  comes behind them.
* `Tool.read_operands_iff`: what comes behind them is read as operands exactly when the first of it
  does not look like an option.
* `Tool.table` is a tool given by which of its options have a value, and `Tool.table_takes` says
  what it takes.
* `Program.read_iff`: the same for the command of a program, behind the program's own options.
-/

namespace Foundation
namespace Argv

/-! ## Reading -/

/-- The argument looks like an option: a dash and more. -/
def isOption (arg : String) : Bool :=
  match arg.toList with
  | '-' :: _ :: _ => true
  | _ => false

/-- An option by its name, and its value if it has one. -/
abbrev Opt : Type :=
  String × Option String

/-- What an argument vector is read as. -/
structure Reading where
  options : List Opt
  operands : List String
  deriving DecidableEq

/-- The reading, with options in front of it. -/
def Reading.after (options : List Opt) (r : Reading) : Reading :=
  ⟨options ++ r.options, r.operands⟩

/-- How a tool reads its options: the option that an argument is, with those behind it, and how many
of these belong to it. -/
structure Tool where
  take : String → List String → Option (Opt × ℕ)

/-- Read the arguments behind an option that so many of them belong to. -/
def Tool.read (tool : Tool) : ℕ → List String → Option Reading
  | 0, [] => some ⟨[], []⟩
  | _ + 1, [] => none
  | pending + 1, _ :: args => tool.read pending args
  | 0, arg :: args =>
    if arg = "--" then some ⟨[], args⟩
    else if isOption arg = true then
      match tool.take arg args with
      | some (option, n) => (tool.read n args).map (.after [option])
      | none => none
    else some ⟨[], arg :: args⟩

/-! ## Writing -/

/-- The name of an option: one dash and a character, or two dashes and more. -/
def isName (name : String) : Bool :=
  match name.toList with
  | ['-', c] => c ≠ '-'
  | '-' :: '-' :: _ :: _ => true
  | _ => false

/-- A name that an option can have. -/
structure Name where
  text : String
  isName : isName text = true

/-- An option, as it is written. -/
inductive Written where
  | flag (name : Name)
  /-- The value is the next argument. -/
  | separate (name : Name) (value : String)
  /-- The value is behind an equals sign. -/
  | attached (name : Name) (value : String)

namespace Written

/-- The argument that is the option. -/
def head : Written → String
  | flag name => name.text
  | separate name _ => name.text
  | attached name value => name.text ++ "=" ++ value

/-- The arguments behind it that belong to it. -/
def tail : Written → List String
  | flag _ => []
  | separate _ value => [value]
  | attached _ _ => []

/-- The arguments. -/
def args (w : Written) : List String :=
  w.head :: w.tail

/-- The option that is meant. -/
def option : Written → Opt
  | flag name => (name.text, none)
  | separate name value => (name.text, some value)
  | attached name value => (name.text, some value)

end Written

theorem isOption_of_isName {name : String} (h : isName name = true) :
    isOption name = true ∧ name ≠ "--" := by
  unfold isName at h
  split at h
  · rename_i c heq
    refine ⟨by rw [isOption, heq]; rfl, ?_⟩
    rintro rfl
    cases heq
    exact absurd h (by decide)
  · rename_i c rest heq
    refine ⟨by rw [isOption, heq]; rfl, ?_⟩
    rintro rfl
    cases heq
  · cases h

/-- What is behind a name does not make it anything else. -/
theorem isOption_append {name : String} (h : isOption name = true) (text : String) :
    isOption (name ++ text) = true := by
  unfold isOption at h
  split at h
  · rename_i c rest heq
    rw [isOption, String.toList_append, heq]
    rfl
  · cases h

/-- An option that was written looks like one. -/
theorem Written.isOption_head (w : Written) : isOption w.head = true ∧ w.head ≠ "--" := by
  cases w with
  | flag name => exact isOption_of_isName name.isName
  | separate name value => exact isOption_of_isName name.isName
  | attached name value =>
    obtain ⟨hname, -⟩ := isOption_of_isName name.isName
    refine ⟨isOption_append (isOption_append hname "=") value, fun heq => ?_⟩
    have hmem : '=' ∈ (name.text ++ "=" ++ value).toList := by simp
    have hmem' : '=' ∈ "--".toList := by rwa [← heq]
    exact absurd hmem' (by decide)

/-! ## Reading what was written -/

section Tool

variable {tool : Tool} {ws : List Written} {arg : String} {args : List String}

/-- The tool takes an option that is written so, whatever comes behind it. -/
def Tool.Takes (tool : Tool) (w : Written) : Prop :=
  ∀ args, tool.take w.head (w.tail ++ args) = some (w.option, w.tail.length)

/-- Arguments that belong to the option before are passed over. -/
theorem Tool.read_pending (tail args : List String) :
    tool.read tail.length (tail ++ args) = tool.read 0 args := by
  induction tail with
  | nil => rfl
  | cons value tail ih => exact ih

theorem Tool.Takes.read_args {w : Written} (hw : tool.Takes w) (args : List String) :
    tool.read 0 (w.args ++ args) = (tool.read 0 args).map (.after [w.option]) := by
  obtain ⟨hoption, hdashes⟩ := w.isOption_head
  show tool.read 0 (w.head :: (w.tail ++ args)) = _
  rw [Tool.read, if_neg hdashes, if_pos hoption, hw args]
  show (tool.read w.tail.length (w.tail ++ args)).map _ = _
  rw [Tool.read_pending]

/-- **Options that were written are read back**, and then what comes behind them. -/
theorem Tool.read_written (hws : ∀ w ∈ ws, tool.Takes w) (args : List String) :
    tool.read 0 (ws.flatMap Written.args ++ args) =
      (tool.read 0 args).map (.after (ws.map Written.option)) := by
  induction ws with
  | nil =>
    cases h : tool.read 0 args with
    | none => rw [List.flatMap_nil, List.nil_append, h]; rfl
    | some r => rw [List.flatMap_nil, List.nil_append, h]; rfl
  | cons w ws ih =>
    have hrest := ih fun w' hw' => hws w' (List.mem_cons_of_mem w hw')
    rw [List.flatMap_cons, List.append_assoc, (hws w List.mem_cons_self).read_args, hrest,
      Option.map_map]
    rfl

/-- An argument that does not look like an option is the first operand. -/
theorem Tool.read_operands (h : isOption arg = false) :
    tool.read 0 (arg :: args) = some ⟨[], arg :: args⟩ := by
  have hdashes : arg ≠ "--" := by
    rintro rfl
    exact absurd h (by decide)
  rw [Tool.read, if_neg hdashes, if_neg (by simp [h])]

/-- One that does is not. -/
theorem Tool.isOption_of_read (h : tool.read 0 (arg :: args) = some ⟨[], arg :: args⟩) :
    isOption arg = false := by
  rw [Tool.read] at h
  split_ifs at h with hdashes hoption
  · have hlength := congrArg (fun r => r.map fun r : Reading => r.operands.length) h
    simp at hlength
  · split at h
    · obtain ⟨r, -, hr⟩ := Option.map_eq_some_iff.1 h
      cases hr
    · cases h
  · simpa using hoption

/-- **What comes behind the options is read as operands exactly when the first of it does not look
like an option.** -/
theorem Tool.read_operands_iff (hws : ∀ w ∈ ws, tool.Takes w) :
    tool.read 0 (ws.flatMap Written.args ++ arg :: args) =
      some ⟨ws.map Written.option, arg :: args⟩ ↔ isOption arg = false := by
  rw [Tool.read_written hws, Option.map_eq_some_iff]
  constructor
  · rintro ⟨⟨options, operands⟩, hread, heq⟩
    simp only [Reading.after, Reading.mk.injEq, List.append_right_eq_self] at heq
    obtain ⟨rfl, rfl⟩ := heq
    exact Tool.isOption_of_read hread
  · intro h
    refine ⟨⟨[], arg :: args⟩, Tool.read_operands h, ?_⟩
    rw [Reading.after, List.append_nil]

end Tool

/-! ## Tools with a table of options -/

/-- A tool with these options, and these others that have a value. -/
def Tool.table (flags valued : List String) : Tool where
  take arg args :=
    if arg ∈ flags then some ((arg, none), 0)
    else if arg ∈ valued then args.head?.map fun value => ((arg, some value), 1)
    else
      match splitOnce ['='] arg.toList with
      | some (name, value) =>
        if String.ofList name ∈ valued then
          some ((String.ofList name, some (String.ofList value)), 0)
        else none
      | none => none

/-- The option is in the table, and no other is spelled like it. -/
def Written.InTable (flags valued : List String) : Written → Prop
  | flag name => name.text ∈ flags
  | separate name _ => name.text ∉ flags ∧ name.text ∈ valued
  | attached name value => name.text ++ "=" ++ value ∉ flags ++ valued ∧ name.text ∈ valued ∧
      '=' ∉ name.text.toList

instance (flags valued : List String) (w : Written) : Decidable (w.InTable flags valued) := by
  cases w <;> unfold Written.InTable <;> infer_instance

theorem Tool.table_takes {flags valued : List String} {w : Written} (h : w.InTable flags valued) :
    (Tool.table flags valued).Takes w := by
  intro args
  cases w with
  | flag name =>
    have hmem : name.text ∈ flags := h
    simp only [Tool.table, Written.head, Written.option, Written.tail, if_pos hmem]
    rfl
  | separate name value =>
    obtain ⟨hflag, hmem⟩ := h
    simp only [Tool.table, Written.head, Written.option, Written.tail, if_neg hflag, if_pos hmem]
    rfl
  | attached name value =>
    obtain ⟨hother, hmem, hequals⟩ := h
    have hcut : splitOnce ['='] (name.text ++ "=" ++ value).toList =
        some (name.text.toList, value.toList) := by
      have hhead : splitOnce ['='] ('=' :: value.toList) = some ([], value.toList) :=
        splitOnce_head ⟨value.toList, rfl⟩
      rw [String.toList_append, String.toList_append, List.append_assoc, splitOnce_append hequals]
      show (splitOnce ['='] ('=' :: value.toList)).map _ = _
      rw [hhead]
      simp
    have hflag : name.text ++ "=" ++ value ∉ flags := fun h => hother (List.mem_append_left _ h)
    have hvalued : name.text ++ "=" ++ value ∉ valued :=
      fun h => hother (List.mem_append_right _ h)
    simp only [Tool.table, Written.head, Written.option, Written.tail, if_neg hflag,
      if_neg hvalued, hcut, String.ofList_toList, if_pos hmem]
    rfl

/-! ## Programs with commands -/

/-- A program, with the tool that each of its commands is. -/
structure Program where
  tool : Tool
  command : String → Option Tool

/-- What the arguments of such a program are read as. -/
structure Invocation where
  globals : List Opt
  command : String
  options : List Opt
  operands : List String
  deriving DecidableEq

/-- The first operand of the program is its command, and what comes behind is the command's. -/
def Program.read (program : Program) (args : List String) : Option Invocation :=
  match program.tool.read 0 args with
  | some ⟨globals, command :: args⟩ =>
    match program.command command with
    | some tool => (tool.read 0 args).map fun r => ⟨globals, command, r.options, r.operands⟩
    | none => none
  | _ => none

/-- **A command line that was written is read back exactly when the first operand of its command
does not look like an option.** -/
theorem Program.read_iff {program : Program} {tool : Tool} {globals options : List Written}
    {command arg : String} {args : List String} (hglobals : ∀ w ∈ globals, program.tool.Takes w)
    (hname : isOption command = false) (hcommand : program.command command = some tool)
    (hoptions : ∀ w ∈ options, tool.Takes w) :
    program.read (globals.flatMap Written.args ++
        command :: (options.flatMap Written.args ++ arg :: args)) =
      some ⟨globals.map Written.option, command, options.map Written.option, arg :: args⟩ ↔
    isOption arg = false := by
  rw [Program.read, (Tool.read_operands_iff hglobals).2 hname]
  show ((match program.command command with
    | some tool => (tool.read 0 (options.flatMap Written.args ++ arg :: args)).map _
    | none => none) = _) ↔ _
  rw [hcommand, ← Tool.read_operands_iff hoptions, Option.map_eq_some_iff]
  constructor
  · rintro ⟨⟨read, operands⟩, hread, heq⟩
    cases heq
    exact hread
  · exact fun hread => ⟨_, hread, rfl⟩

end Argv
end Foundation
