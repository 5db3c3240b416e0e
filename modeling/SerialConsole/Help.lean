import SerialConsole.CommandTable
import SerialConsole.Text.Column

/-!
# Help texts

The help listing is a heading, one row for each command in the order of the table, and a reminder of
the syntax.  A row shows the name, widened to `Settings.helpColumn`, and the description.

    listing t = title ++ join (t.commands.map row) ++ join (syntaxReminder.map (· ++ newline))
-/

namespace SerialConsole.Help

open Settings

variable {H : Type}

/-- The heading that a contributed command puts above its own help text. -/
def heading (label : String) : String := "***** " ++ label ++ " help *****" ++ newline

/-- The heading of the help listing. -/
def title : String :=
  "***** help *****" ++ newline ++ newline ++ "List of commands" ++ newline ++ "----------------"
    ++ newline

/-- The row of a command. -/
def row (c : Command H) : String :=
  Text.alignLeft helpColumn c.name ++ " " ++ c.description ++ newline

/-- The lines below the rows. -/
def syntaxReminder : List String :=
  [ "",
    "Help syntax",
    "-----------",
    "warning: case sensitive commands",
    "[optional parameter]",
    "<parameter value>",
    "<val_1>|<val_2>|...|<val_n>: parameter value list",
    "(command description)",
    "return key: last command re-execution",
    "#: comment line",
    "",
    "Advice",
    "-----------",
    "to use commands it is adviced to use one of the following command to disable traces",
    "trace off (allows disable all traces)",
    "cst polling off  (allows to disable modem polling and avoid to display uncomfortable modem traces",
    "" ]

/-- The help listing of a table. -/
def listing (t : CommandTable H) : String :=
  title ++ String.join (t.commands.map row) ++ String.join (syntaxReminder.map (· ++ newline))

end SerialConsole.Help
