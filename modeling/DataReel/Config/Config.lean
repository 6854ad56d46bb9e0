import DataReel.Library.Cut
import DataReel.Library.Lines
import DataReel.Net.Text

/-! # Configuration files

`gxConfig` reads parameters, a name and a value with the parameter ID string between them, from the
lines of a file and changes them there.
-/

namespace DataReel

structure Config where
  parmID : Text
  commentChar : Char
  filterComments : Bool
  entries : List (Text × Text)
  deriving DecidableEq, Repr

namespace Config

/-- The parameter of a line, if it has one. -/
def entryOf (cfg : Config) (cfgLine : Text) : Option (Text × Text) :=
  let buf := Text.trim cfgLine
  if buf.isEmpty then none
  else if cfg.filterComments ∧ buf.head? = some cfg.commentChar then none
  else if cfg.parmID.isEmpty then none
  else
    match cutAt cfg.parmID buf with
    | none => none
    | some (before, after) =>
      let name := Text.trim before
      let value := Text.trimLeft after
      -- a comment behind a space is cut off
      let value :=
        if cfg.filterComments then
          match cutAt [' ', cfg.commentChar] value with
          | none => value
          | some (v, _) => v
        else value
      some (name, Text.trim value)

def storeCfgData (cfg : Config) (cfgLine : Text) : Config :=
  match cfg.entryOf cfgLine with
  | none => cfg
  | some e => { cfg with entries := cfg.entries ++ [e] }

/-- A line as `Load` takes it, without the carriage return at its end. -/
def popReturn (line : Text) : Text := if line.getLast? = some '\r' then line.dropLast else line

/-- `Load`, with no file where it cannot be opened. -/
def load (cfg : Config) (file : Option Text) : Config × Bool :=
  match file with
  | none => (cfg, false)
  | some content => ((linesOf '\n' content).foldl (fun cfg line => cfg.storeCfgData (popReturn line)) cfg, true)

def unLoad (cfg : Config) : Config := { cfg with entries := [] }

def reLoad (cfg : Config) (file : Option Text) : Config × Bool := cfg.unLoad.load file

/-- `FindValue` for a full name. -/
def findValue (cfg : Config) (name : Text) : Option Text :=
  (cfg.entries.find? fun e => e.1 = name).map Prod.snd

def getString (cfg : Config) (name defaultValue : Text) : Text :=
  match cfg.findValue name with
  | none => defaultValue
  | some s => s

/-- Text appended to a file, which is made if there is none. -/
def appendToFile (file : Option Text) (writable : Bool) (text : Text) : Option Text × Bool :=
  if writable then (some (file.getD [] ++ text), true) else (file, false)

def writeConfigLine (cfg : Config) (file : Option Text) (writable : Bool) (parm value : Text) :
    Option Text × Bool :=
  appendToFile file writable (parm ++ cfg.parmID ++ value ++ ['\n'])

/-- A line as `ChangeConfigLine` takes it, without the carriage returns at its end. -/
def popReturns (raw : Text) : Text := raw.rdropWhile fun c => c = '\r' || c = '\n'

/-- One line, with the lines it continues, and how many changes were made in it. -/
def changeLine (cfg : Config) (toReplace toInsert line : Text) : Text × Nat :=
  match cutAt toReplace line, cutAt cfg.parmID line with
  | some (before, after), some _ =>
    if !after.isEmpty ∧ (after.head? = some ' ' ∨ cfg.parmID.isPrefixOf after) then
      (before ++ toReplace ++ cfg.parmID ++ toInsert, 1)
    else (line, 0)
  | _, _ => (line, 0)

/-- The loop over the lines of the file, with the lines before that a backslash continues. -/
def changeLines (cfg : Config) (toReplace toInsert : Text) : Text → List Text → List Text × Nat
  | pending, [] => (if pending.isEmpty then [] else [pending], 0)
  | pending, raw :: raws =>
    let raw := popReturns raw
    if raw.getLast? = some '\\' then
      changeLines cfg toReplace toInsert (pending ++ raw ++ ['\n']) raws
    else
      let (line, n) := cfg.changeLine toReplace toInsert (pending ++ raw)
      let (lines, k) := changeLines cfg toReplace toInsert [] raws
      (line :: lines, n + k)

/-- `ChangeConfigLine` as `ChangeConfigValue` calls it, with its checks of the case and of continued
lines. -/
def changeConfigLine (cfg : Config) (file : Option Text) (writable : Bool) (toReplace toInsert : Text) :
    Nat × Config × Option Text :=
  match file with
  | none => (0, cfg, none)
  | some content =>
    let (lines, numProcessed) := cfg.changeLines toReplace toInsert [] (linesOf '\n' content)
    if numProcessed = 0 then (0, cfg, file)
    else if !writable then (0, cfg, file)
    else
      let file := some (unlines '\n' lines)
      (numProcessed, (cfg.reLoad file).1, file)

def changeConfigValue (cfg : Config) (file : Option Text) (writable : Bool) (parm value : Text) :
    Nat × Config × Option Text :=
  match cfg.changeConfigLine file writable parm value with
  | (0, cfg, file) =>
    match cfg.writeConfigLine file writable parm value with
    | (file, false) => (0, cfg, file)
    | (file, true) => (1, { cfg with entries := cfg.entries ++ [(parm, value)] }, file)
  | r => r

end Config

end DataReel
