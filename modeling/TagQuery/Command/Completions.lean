import TagQuery.Command.Arguments

/-! Completions: what a shell runs so as to offer the names of the commands. -/

namespace TagQuery

/-- The names of the commands, with blanks between them. -/
def commandNames : String :=
  " ".intercalate Request.programForm.commands

/-- The script for a shell. -/
def Shell.completions : Shell → String
  | .bash => "complete -W '" ++ commandNames ++ "' " ++ Request.program ++ "\n"
  | .zsh =>
    "#compdef " ++ Request.program ++ "\n_arguments '1:command:(" ++ commandNames ++ ")'\n"
  | .fish => "complete -c " ++ Request.program ++ " -f -a '" ++ commandNames ++ "'\n"
  | .powershell =>
    "Register-ArgumentCompleter -Native -CommandName " ++ Request.program
      ++ " -ScriptBlock \x7b -split '" ++ commandNames ++ "' \x7d\n"

end TagQuery
