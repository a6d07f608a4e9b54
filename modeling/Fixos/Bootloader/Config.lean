import Fixos.Lib.Lines
import Fixos.Lib.Word

/-! # The configuration file (`bootloader/config_parser.c`, `parse_config_file`)

The file is the list of the bytes that are left to be read. A reading function gives the bytes that
it stores at the start of its caller's buffer, also when it fails.
-/

namespace Fixos.Bootloader

open Lines List

def newline : UInt8 := 10

def chars (cs : List Char) : Bytes := cs.map Char.toUInt8

def overwrite (buffer stored : Bytes) : Bytes := stored ++ buffer.drop stored.length

def cstring (buffer : Bytes) : Bytes := buffer.takeWhile (· ≠ 0)

def skipLine : Bytes → Bytes
  | [] => []
  | c :: file => if c = newline then file else skipLine file

/-- At the end of the file -1 is stored, as a `char`. -/
def copyUntil (stop : UInt8) : Nat → Bytes → Bytes × Bytes
  | 0, file => ([], file)
  | _ + 1, [] => ([0xFF], [])
  | room + 1, c :: file =>
    if c = newline ∨ c = stop then ([c], file)
    else (c :: (copyUntil stop room file).1, (copyUntil stop room file).2)

def Delimited (stop : UInt8) (stored : Bytes) : Prop := stored.getLast? = some stop
deriving Decidable

inductive ConfigTag where
  | eof
  | empty
  | scope
  | assign
  | unknown
deriving DecidableEq

def configReadTag (bufsize : Nat) : Bytes → (ConfigTag × Bytes) × Bytes
  | [] => ((.eof, []), [])
  | c :: file =>
    if c = newline then ((.empty, []), file)
    else if c = '#'.toUInt8 then ((.empty, []), skipLine file)
    else if c = '['.toUInt8 then
      let (stored, rest) := copyUntil ']'.toUInt8 bufsize file
      if Delimited ']'.toUInt8 stored then ((.scope, stored.dropLast ++ [0]), skipLine rest)
      else ((.unknown, stored), rest)
    else if c = '='.toUInt8 then ((.assign, [0]), file)
    else
      let (stored, rest) := copyUntil '='.toUInt8 (bufsize - 1) file
      if Delimited '='.toUInt8 stored then ((.assign, c :: stored.dropLast ++ [0]), rest)
      else ((.unknown, c :: stored), rest)

/-- A character behind the quote is stored before the size of the buffer is looked at. -/
def configReadAssignString (bufsize : Nat) : Bytes → (Int × Bytes) × Bytes
  | [] => ((-1, []), [])
  | c :: file =>
    if c = '"'.toUInt8 then
      let (stored, rest) := copyUntil '"'.toUInt8 (max 1 bufsize) file
      if stored.length ≤ bufsize ∧ Delimited '"'.toUInt8 stored then ((0, stored.dropLast ++ [0]), skipLine rest)
      else ((-1, stored), rest)
    else ((-1, []), file)

def expectChars : Bytes → Bytes → Bool × Bytes
  | [], file => (true, file)
  | _ :: _, [] => (false, [])
  | c :: cs, d :: file => if d = c then expectChars cs file else (false, file)

/-- The part of `config_read_assign_bool` behind the first letter of an accepted value. -/
def readAnswer (value : Int) (second : UInt8) (others : Bytes) : Bytes → Option Int × Bytes
  | [] => (none, [])
  | c :: file =>
    if c = newline then (some value, file)
    else if c = second then
      let (ok, rest) := expectChars others file
      (if ok then some value else none, rest)
    else (none, file)

/-- Accepted values are 'yes', 'no', 'y' and 'n'. -/
def configReadAssignBool : Bytes → Option Int × Bytes
  | [] => (none, [])
  | c :: file =>
    if c = 'y'.toUInt8 then readAnswer 1 'e'.toUInt8 ['s'.toUInt8, newline] file
    else if c = 'n'.toUInt8 then readAnswer 0 'o'.toUInt8 [newline] file
    else (none, file)

def configReadAssignInt (tmpval : Nat) : Bytes → Option Int × Bytes
  | [] => (some (Word.signed tmpval), [])
  | c :: file =>
    if '0'.toUInt8 ≤ c ∧ c ≤ '9'.toUInt8 then
      configReadAssignInt ((tmpval * 10 + (c.toNat - '0'.toNat)) % 2 ^ 32) file
    else (if c = newline then some (Word.signed tmpval) else none, file)

structure BootEntry where
  defined : Bool
  label : Bytes
  args : Bytes
  type : Bytes
  kernel : Bytes
deriving DecidableEq

structure BootConfig (entryNumber : Nat) where
  message : Bytes
  quiet : Int
  defaultEntry : Int
  entries : Fin entryNumber → BootEntry

inductive ConfigScope (entryNumber : Nat) where
  | global
  | entry (i : Fin entryNumber)
deriving DecidableEq

inductive StringAttr (entryNumber : Nat) where
  | message
  | label (i : Fin entryNumber)
  | args (i : Fin entryNumber)
  | type (i : Fin entryNumber)
  | kernel (i : Fin entryNumber)
deriving DecidableEq

inductive ConfigEffect (entryNumber : Nat) where
  | nothing
  | enter (scope : ConfigScope entryNumber)
  | store (attr : StringAttr entryNumber) (stored : Bytes)
  | setQuiet (value : Int)
  | setDefault (value : Int)
deriving DecidableEq

section

variable {entryNumber : Nat}

/-- The scope that a header names: one character after "Entry", a `char` and so at most 127. -/
def scopeOf (entryNumber : Nat) (name : Bytes) : Option (ConfigScope entryNumber) :=
  if name = chars ['G', 'l', 'o', 'b', 'a', 'l'] then some .global
  else
    match name with
    | [e, n, t, r, y, d] =>
      if h : [e, n, t, r, y] = chars ['E', 'n', 't', 'r', 'y'] ∧ 49 ≤ d.toNat ∧ d.toNat < 128 ∧
          d.toNat ≤ 48 + entryNumber then
        some (.entry ⟨d.toNat - 49, by omega⟩)
      else none
    | _ => none

def readString (attr : StringAttr entryNumber) (bufsize : Nat) (file : Bytes) :
    ConfigEffect entryNumber × Bytes :=
  let ((_, stored), rest) := configReadAssignString bufsize file
  (.store attr stored, rest)

/-- The value of an attribute of the scope. For a name that is no attribute nothing is read. -/
def readValue (scope : ConfigScope entryNumber) (name file : Bytes) : ConfigEffect entryNumber × Bytes :=
  match scope with
  | .global =>
    if name = chars ['m', 'e', 's', 's', 'a', 'g', 'e'] then readString .message 30 file
    else if name = chars ['q', 'u', 'i', 'e', 't'] then
      let (value, rest) := configReadAssignBool file
      (value.elim .nothing .setQuiet, rest)
    else if name = chars ['d', 'e', 'f', 'a', 'u', 'l', 't'] then
      let (value, rest) := configReadAssignInt 0 file
      (value.elim .nothing .setDefault, rest)
    else (.nothing, file)
  | .entry i =>
    if name = chars ['l', 'a', 'b', 'e', 'l'] then readString (.label i) 30 file
    else if name = chars ['a', 'r', 'g', 's'] then readString (.args i) 50 file
    else if name = chars ['t', 'y', 'p', 'e'] then readString (.type i) 20 file
    else if name = chars ['k', 'e', 'r', 'n', 'e', 'l'] then readString (.kernel i) 50 file
    else (.nothing, file)

def readTurn (scope : ConfigScope entryNumber) (file : Bytes) : ConfigEffect entryNumber × Bytes :=
  match configReadTag 50 file with
  | ((.scope, tagbuf), rest) => ((scopeOf entryNumber (cstring tagbuf)).elim .nothing .enter, rest)
  | ((.assign, tagbuf), rest) => readValue scope (cstring tagbuf) rest
  | (_, rest) => (.nothing, rest)

structure Loader (entryNumber : Nat) where
  config : BootConfig entryNumber
  scope : ConfigScope entryNumber

def BootConfig.setEntry (config : BootConfig entryNumber) (i : Fin entryNumber) (entry : BootEntry) :
    BootConfig entryNumber :=
  { config with entries := Function.update config.entries i entry }

def BootConfig.setString (config : BootConfig entryNumber) (stored : Bytes) :
    StringAttr entryNumber → BootConfig entryNumber
  | .message => { config with message := overwrite config.message stored }
  | .label i => config.setEntry i { config.entries i with label := overwrite (config.entries i).label stored }
  | .args i => config.setEntry i { config.entries i with args := overwrite (config.entries i).args stored }
  | .type i => config.setEntry i { config.entries i with type := overwrite (config.entries i).type stored }
  | .kernel i => config.setEntry i { config.entries i with kernel := overwrite (config.entries i).kernel stored }

def BootConfig.string (config : BootConfig entryNumber) : StringAttr entryNumber → Bytes
  | .message => config.message
  | .label i => (config.entries i).label
  | .args i => (config.entries i).args
  | .type i => (config.entries i).type
  | .kernel i => (config.entries i).kernel

def Loader.apply (st : Loader entryNumber) : ConfigEffect entryNumber → Loader entryNumber
  | .nothing => st
  | .enter .global => { st with scope := .global }
  | .enter (.entry i) => ⟨st.config.setEntry i { st.config.entries i with defined := true }, .entry i⟩
  | .store attr stored => { st with config := st.config.setString stored attr }
  | .setQuiet value => { st with config := { st.config with quiet := value } }
  | .setDefault value => { st with config := { st.config with defaultEntry := value } }

lemma skipLine_suffix (file : Bytes) : skipLine file <:+ file := by
  induction file with
  | nil => exact suffix_rfl
  | cons c file ih =>
    unfold skipLine
    split
    · exact suffix_cons c file
    · exact ih.trans (suffix_cons c file)

lemma skipLine_append {text rest : Bytes} (hText : newline ∉ text) : skipLine (text ++ rest) = skipLine rest := by
  induction text with
  | nil => rfl
  | cons c text ih =>
    rw [cons_append, skipLine, if_neg (Ne.symm (ne_of_not_mem_cons hText)), ih (not_mem_of_not_mem_cons hText)]

lemma copyUntil_suffix (stop : UInt8) (room : Nat) : LeavesSuffix (copyUntil stop room) := by
  intro file
  induction file generalizing room with
  | nil => cases room <;> exact suffix_rfl
  | cons c file ih =>
    cases room with
    | zero => exact suffix_rfl
    | succ room =>
      unfold copyUntil
      split
      · exact suffix_cons c file
      · exact (ih room).trans (suffix_cons c file)

lemma configReadTag_suffix (bufsize : Nat) (c : UInt8) (file : Bytes) : (configReadTag bufsize (c :: file)).2 <:+ file := by
  unfold configReadTag
  dsimp only
  split_ifs
  · exact suffix_rfl
  · exact skipLine_suffix file
  · exact (skipLine_suffix _).trans (copyUntil_suffix _ _ file)
  · exact copyUntil_suffix _ _ file
  · exact suffix_rfl
  · exact copyUntil_suffix _ _ file
  · exact copyUntil_suffix _ _ file

lemma configReadAssignString_suffix (bufsize : Nat) : LeavesSuffix (configReadAssignString bufsize)
  | [] => suffix_rfl
  | c :: file => by
    unfold configReadAssignString
    dsimp only
    split_ifs
    · exact (skipLine_suffix _).trans ((copyUntil_suffix _ _ file).trans (suffix_cons c file))
    · exact (copyUntil_suffix _ _ file).trans (suffix_cons c file)
    · exact suffix_cons c file

lemma expectChars_suffix (cs : Bytes) : LeavesSuffix (expectChars cs) := by
  induction cs with
  | nil => exact fun file => suffix_rfl
  | cons c cs ih =>
    rintro (_ | ⟨d, file⟩)
    · exact suffix_rfl
    · unfold expectChars
      split
      · exact (ih file).trans (suffix_cons d file)
      · exact suffix_cons d file

lemma readAnswer_suffix (value : Int) (second : UInt8) (others : Bytes) : LeavesSuffix (readAnswer value second others)
  | [] => suffix_rfl
  | c :: file => by
    unfold readAnswer
    dsimp only
    split
    · exact suffix_cons c file
    · split
      · exact (expectChars_suffix others file).trans (suffix_cons c file)
      · exact suffix_cons c file

lemma configReadAssignBool_suffix : LeavesSuffix configReadAssignBool
  | [] => suffix_rfl
  | c :: file => by
    unfold configReadAssignBool
    dsimp only
    split_ifs
    · exact (readAnswer_suffix _ _ _ file).trans (suffix_cons c file)
    · exact (readAnswer_suffix _ _ _ file).trans (suffix_cons c file)
    · exact suffix_cons c file

lemma configReadAssignInt_suffix (tmpval : Nat) : LeavesSuffix (configReadAssignInt tmpval) := by
  intro file
  induction file generalizing tmpval with
  | nil => exact suffix_rfl
  | cons c file ih =>
    unfold configReadAssignInt
    split
    · exact (ih _).trans (suffix_cons c file)
    · exact suffix_cons c file

lemma readString_suffix (attr : StringAttr entryNumber) (bufsize : Nat) : LeavesSuffix (readString attr bufsize) :=
  configReadAssignString_suffix bufsize

lemma readValue_suffix (scope : ConfigScope entryNumber) (name : Bytes) : LeavesSuffix (readValue scope name) := by
  intro file
  unfold readValue
  cases scope <;> dsimp only <;> split_ifs
  · exact readString_suffix _ _ file
  · exact configReadAssignBool_suffix file
  · exact configReadAssignInt_suffix 0 file
  · exact suffix_rfl
  · exact readString_suffix _ _ file
  · exact readString_suffix _ _ file
  · exact readString_suffix _ _ file
  · exact readString_suffix _ _ file
  · exact suffix_rfl

lemma readTurn_suffix (scope : ConfigScope entryNumber) (c : UInt8) (file : Bytes) :
    (readTurn scope (c :: file)).2 <:+ file := by
  have hTag := configReadTag_suffix 50 c file
  unfold readTurn
  split
  next tagbuf rest h =>
    rw [h] at hTag
    exact hTag
  next tagbuf rest h =>
    rw [h] at hTag
    exact (readValue_suffix scope _ rest).trans hTag
  next h =>
    rw [h] at hTag
    exact hTag

def parseLoop (st : Loader entryNumber) : Bytes → Loader entryNumber
  | [] => st
  | c :: file =>
    parseLoop (st.apply (readTurn st.scope (c :: file)).1) (readTurn st.scope (c :: file)).2
termination_by file => file.length
decreasing_by exact Nat.lt_succ_of_le (readTurn_suffix st.scope c file).length_le

end

def BootEntry.zero : BootEntry :=
  ⟨false, replicate 30 0, replicate 50 0, replicate 20 0, replicate 50 0⟩

def bootDefaults (entryNumber : Nat) : BootConfig entryNumber := ⟨replicate 30 0, 0, 1, fun _ => BootEntry.zero⟩

def loaderAfter (entryNumber : Nat) (file : Bytes) : Loader entryNumber :=
  parseLoop ⟨bootDefaults entryNumber, .global⟩ file

def parseConfigFile (entryNumber : Nat) (file : Bytes) : BootConfig entryNumber :=
  (loaderAfter entryNumber file).config

end Fixos.Bootloader
