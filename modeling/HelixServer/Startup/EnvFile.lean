import HelixServer.Model.Runtime
import Mathlib.Data.List.Basic
import Mathlib.Data.List.TakeWhile

/-!
# The environment files

`loadEnv.ts` reads `.env`, and then the file of the mode that `NODE_ENV` names, into the environment
of the process.  The first definition of a name wins: the process's own, then the first line of
`.env` that defines it, then the first line of the other file (`loadEnv_lookup`).  A value without
line breaks that is written in quotes is read back, whatever else it contains
(`loadEnvFile_render`).  Names that every object inherits, such as `constructor`, are never
undefined, so no line defines them.

## Main definitions

* `entry line` : the name and the value that a line has.
* `definitions text` : what the lines of a file define.
* `loadEnv files env` : the environment after both files.
* `render entries` : a file that defines the entries.
-/

namespace HelixServer

namespace Startup

/-- `process.env`: what each variable of the process reads as. -/
abbrev Env := String → Option String

/-- `trim`, on characters. -/
def trimChars (cs : List Char) : List Char :=
  ((cs.dropWhile isTrimmed).reverse.dropWhile isTrimmed).reverse

/-- A single or a double quote. -/
def isQuote (c : Char) : Bool := c.toNat == 0x22 || c.toNat == 0x27

/-- The characters without a quote that they start with. -/
def dropQuote : List Char → List Char
  | [] => []
  | c :: cs => if isQuote c then cs else c :: cs

/-- `value.replace`, of a quote at the start and of one at the end. -/
def unquote (cs : List Char) : List Char := (dropQuote (dropQuote cs).reverse).reverse

/-- The name and the value that a line has. -/
def entry (line : List Char) : Option (List Char × List Char) :=
  let trimmed := trimChars line
  if trimmed.isEmpty || trimmed.head? == some '#' then none
  else if trimmed.contains '=' then
    some (trimChars (trimmed.takeWhile (· != '=')),
      unquote (trimChars ((trimmed.dropWhile (· != '=')).drop 1)))
  else none

/-- A name or a value as the process keeps it: a C string. -/
def cString (cs : List Char) : String := String.ofList (cs.takeWhile (·.toNat != 0))

/-- The names of `Object.prototype`: `process.env` inherits a value for each. -/
def inherited : List String :=
  ["constructor", "hasOwnProperty", "isPrototypeOf", "propertyIsEnumerable", "toLocaleString",
    "toString", "valueOf", "__proto__", "__defineGetter__", "__defineSetter__", "__lookupGetter__",
    "__lookupSetter__"]

/-- `process.env[key] ??= value`. -/
def assign (env : Env) (key value : List Char) : Env := fun name =>
  -- an inherited name is not undefined, and the process refuses an empty name
  if String.ofList key ∉ inherited ∧ cString key ≠ "" ∧ name = cString key then
    (env name).or (some (cString value))
  else env name

/-- A line of a file. -/
def loadLine (env : Env) (line : List Char) : Env :=
  match entry line with
  | none => env
  | some (key, value) => assign env key value

/-- `loadEnvFile`, of a file that may not exist. -/
def loadEnvFile (file : Option String) (env : Env) : Env :=
  match file with
  | none => env
  | some text => (text.toList.splitOn '\n').foldl loadLine env

/-- `loadEnv.ts`: `.env`, and the file of the mode. -/
def loadEnv (files : String → Option String) (env : Env) : Env :=
  let env := loadEnvFile (files ".env") env
  match (env "NODE_ENV").filter (· != "") with
  | none => env
  | some mode => loadEnvFile (files (".env." ++ mode)) env

/-! ### The first definition wins -/

/-- What a line defines: nothing, if its name is empty or inherited. -/
def definition (line : List Char) : Option (String × String) :=
  (entry line).bind fun e =>
    if String.ofList e.1 ∉ inherited ∧ cString e.1 ≠ "" then some (cString e.1, cString e.2)
    else none

/-- What the lines of a file define. -/
def definitions (text : String) : List (String × String) :=
  (text.toList.splitOn '\n').filterMap definition

/-- What a file says of a name. -/
def fileLookup (name : String) (file : Option String) : Option String :=
  file.bind fun text => (definitions text).lookup name

variable {env : Env} {name : String} {files : String → Option String} {file : Option String}

theorem loadLine_apply (line : List Char) :
    loadLine env line name = (env name).or ((definition line).toList.lookup name) := by
  rw [loadLine, definition]
  cases entry line with
  | none => simp
  | some e =>
    simp only [assign, Option.bind_some]
    by_cases hdefines : String.ofList e.1 ∉ inherited ∧ cString e.1 ≠ ""
    · rw [if_pos hdefines, Option.toList_some, List.lookup_cons]
      by_cases hname : name = cString e.1
      · simp [hname, hdefines]
      · have hne : (name == cString e.1) = false := by simpa using hname
        simp [hname, hne]
    · have hkept : ¬ (String.ofList e.1 ∉ inherited ∧ cString e.1 ≠ "" ∧ name = cString e.1) :=
        fun h => hdefines ⟨h.1, h.2.1⟩
      simp [hdefines, hkept]

theorem foldl_loadLine (lines : List (List Char)) :
    lines.foldl loadLine env name =
      (env name).or ((lines.filterMap definition).lookup name) := by
  induction lines generalizing env with
  | nil => simp
  | cons line lines ih =>
    rw [List.foldl_cons, ih, loadLine_apply, Option.or_assoc]
    cases hdef : definition line with
    | none => simp [hdef]
    | some d =>
      rw [List.filterMap_cons_some hdef, Option.toList_some, List.lookup_cons, List.lookup_cons]
      -- the first definition of the name is this one, or a later one
      cases name == d.1 with
      | true => simp
      | false => simp

theorem loadEnvFile_lookup : loadEnvFile file env name = (env name).or (fileLookup name file) := by
  cases file with
  | none => simp [loadEnvFile, fileLookup]
  | some text => exact foldl_loadLine _

/-- **The first definition wins.**  A variable reads as the process has it, else as the first line
of `.env` that defines it, else as the first line that defines it of the file of the mode, which is
`NODE_ENV` as the process or `.env` has it. -/
theorem loadEnv_lookup (files : String → Option String) (env : Env) (name : String) :
    loadEnv files env name = ((env name).or (fileLookup name (files ".env"))).or
      ((((env "NODE_ENV").or (fileLookup "NODE_ENV" (files ".env"))).filter (· != "")).bind
        fun mode => fileLookup name (files (".env." ++ mode))) := by
  unfold loadEnv
  simp only [loadEnvFile_lookup]
  cases ((env "NODE_ENV").or (fileLookup "NODE_ENV" (files ".env"))).filter (· != "") with
  | none => simp [loadEnvFile_lookup]
  | some mode => simp [loadEnvFile_lookup]

/-! ### What is written is read back -/

/-- A line that defines a name, its value in quotes. -/
def quotedLine (e : String × String) : List Char :=
  e.1.toList ++ '=' :: '"' :: (e.2.toList ++ ['"'])

/-- A file that defines the entries. -/
def render (entries : List (String × String)) : String :=
  String.ofList (['\n'].intercalate (entries.map quotedLine))

/-- The name is not inherited, is trimmed and no comment, and has no equals sign; neither the name
nor the value has a line break. -/
structure Writable (e : String × String) : Prop where
  name_ne : e.1 ≠ ""
  name_own : e.1 ∉ inherited
  name_trim : trim e.1 = e.1
  name_head : e.1.toList.head? ≠ some '#'
  name_chars : ∀ c ∈ e.1.toList, c ≠ '=' ∧ c ≠ '\n' ∧ c.toNat ≠ 0
  value_chars : ∀ c ∈ e.2.toList, c ≠ '\n' ∧ c.toNat ≠ 0

theorem dropWhile_of_trimChars {cs : List Char} (h : trimChars cs = cs) :
    cs.dropWhile isTrimmed = cs := by
  refine (List.dropWhile_suffix _).eq_of_length
    (Nat.le_antisymm (List.dropWhile_suffix _).length_le ?_)
  have hlength : (trimChars cs).length ≤ (cs.dropWhile isTrimmed).length := by
    rw [trimChars, List.length_reverse]
    exact (List.dropWhile_suffix _).length_le.trans_eq List.length_reverse
  rwa [h] at hlength

theorem trimChars_of_last {cs : List Char} {c : Char}
    (h : (cs ++ [c]).dropWhile isTrimmed = cs ++ [c]) (hc : isTrimmed c = false) :
    trimChars (cs ++ [c]) = cs ++ [c] := by
  rw [trimChars, h, List.reverse_append, List.reverse_singleton, List.singleton_append,
    List.dropWhile_cons_of_neg (by simp [hc]), List.reverse_cons, List.reverse_reverse]

theorem unquote_quoted (cs : List Char) : unquote ('"' :: (cs ++ ['"'])) = cs := by
  have hquote : isQuote '"' = true := by decide
  simp [unquote, dropQuote, hquote]

variable {e : String × String}

theorem entry_quotedLine (h : Writable e) :
    entry (quotedLine e) = some (e.1.toList, e.2.toList) := by
  have hblank : isTrimmed '"' = false := by decide
  have hkey : trimChars e.1.toList = e.1.toList := by
    have htrim := congrArg String.toList h.name_trim
    simpa [trim, trimChars] using htrim
  have hne : e.1.toList ≠ [] := fun hnil => h.name_ne (String.toList_eq_nil_iff.1 hnil)
  -- the line starts with no blank, and ends with a quote
  have hstart : (quotedLine e).dropWhile isTrimmed = quotedLine e := by
    rw [quotedLine, List.dropWhile_append, dropWhile_of_trimChars hkey]
    simp [hne]
  have hline : trimChars (quotedLine e) = quotedLine e := by
    have hsplit : quotedLine e = (e.1.toList ++ '=' :: '"' :: e.2.toList) ++ ['"'] := by
      simp [quotedLine]
    rw [hsplit] at hstart ⊢
    exact trimChars_of_last hstart hblank
  have hkeep : ∀ c ∈ e.1.toList, (c != '=') = true := by
    intro c hc
    simpa using (h.name_chars c hc).1
  have hvalue : trimChars ('"' :: (e.2.toList ++ ['"'])) = '"' :: (e.2.toList ++ ['"']) := by
    rw [← List.cons_append]
    exact trimChars_of_last (List.dropWhile_cons_of_neg (by simp [hblank])) hblank
  have hempty : (quotedLine e).isEmpty = false := by simp [quotedLine]
  have hhead : ((quotedLine e).head? == some '#') = false := by
    have hfirst : (quotedLine e).head? = e.1.toList.head? := List.head?_append_of_ne_nil _ hne
    simpa [hfirst] using h.name_head
  have hcontains : (quotedLine e).contains '=' = true := by simp [quotedLine]
  have htake : (quotedLine e).takeWhile (· != '=') = e.1.toList := by
    rw [quotedLine, List.takeWhile_append_of_pos hkeep]
    simp
  have hdrop : ((quotedLine e).dropWhile (· != '=')).drop 1 = '"' :: (e.2.toList ++ ['"']) := by
    rw [quotedLine, List.dropWhile_append_of_pos hkeep]
    simp
  simp only [entry, hline, hempty, hhead, hcontains, htake, hdrop, hkey, hvalue, unquote_quoted,
    Bool.or_self, Bool.false_eq_true, if_false, if_true]

theorem cString_eq {text : String} (h : ∀ c ∈ text.toList, c.toNat ≠ 0) :
    cString text.toList = text := by
  have hkeep : ∀ c ∈ text.toList, (c.toNat != 0) = true := by
    intro c hc
    simpa using h c hc
  rw [cString, List.takeWhile_eq_self_iff.2 hkeep, String.ofList_toList]

theorem definition_quotedLine (h : Writable e) : definition (quotedLine e) = some e := by
  have hname : cString e.1.toList = e.1 := cString_eq fun c hc => (h.name_chars c hc).2.2
  have hvalue : cString e.2.toList = e.2 := cString_eq fun c hc => (h.value_chars c hc).2
  simp [definition, entry_quotedLine h, hname, hvalue, h.name_own, h.name_ne]

theorem filterMap_quotedLine {entries : List (String × String)} (h : ∀ e ∈ entries, Writable e) :
    (entries.map quotedLine).filterMap definition = entries := by
  induction entries with
  | nil => rfl
  | cons e entries ih =>
    rw [List.map_cons, List.filterMap_cons_some (definition_quotedLine (h e List.mem_cons_self)),
      ih fun e' he' => h e' (List.mem_cons_of_mem _ he')]

theorem notMem_quotedLine (h : Writable e) : '\n' ∉ quotedLine e := by
  simp only [quotedLine, List.mem_append, List.mem_cons, List.not_mem_nil, or_false, not_or]
  refine ⟨fun hc => (h.name_chars _ hc).2.1 rfl, by decide, by decide,
    fun hc => (h.value_chars _ hc).1 rfl, by decide⟩

/-- **Round trip.**  A file that defines entries, their values in quotes, defines just these. -/
theorem definitions_render {entries : List (String × String)} (h : ∀ e ∈ entries, Writable e) :
    definitions (render entries) = entries := by
  unfold definitions render
  rw [String.toList_ofList]
  by_cases hnil : entries = []
  · subst hnil
    rfl
  · have hlines : ∀ line ∈ entries.map quotedLine, '\n' ∉ line := by
      intro line hline
      obtain ⟨e, he, rfl⟩ := List.mem_map.1 hline
      exact notMem_quotedLine (h e he)
    rw [List.splitOn_intercalate _ hlines (by simpa using hnil)]
    exact filterMap_quotedLine h

/-- **A written file is read back into the environment**: a variable that the process does not have
reads as the first entry for it, whatever quotes, blanks and signs its value contains. -/
theorem loadEnvFile_render {entries : List (String × String)} (h : ∀ e ∈ entries, Writable e)
    (env : Env) (name : String) :
    loadEnvFile (some (render entries)) env name = (env name).or (entries.lookup name) := by
  rw [loadEnvFile_lookup]
  simp only [fileLookup, Option.bind_some, definitions_render h]

/-- Values with quotes, equals signs, blanks and number signs. -/
theorem loadEnvFile_render_sample : loadEnvFile
    (some (render [("A_KEY", " it's \"quoted\" "), ("B_KEY", "#=x="), ("A_KEY", "late")]))
      (fun _ => none) "A_KEY" = some " it's \"quoted\" " := by
  refine (loadEnvFile_render ?_ _ _).trans rfl
  intro e he
  have hchars : ∀ e ∈ [("A_KEY", " it's \"quoted\" "), ("B_KEY", "#=x="), ("A_KEY", "late")],
      e.1 ≠ "" ∧ e.1 ∉ inherited ∧ trim e.1 = e.1 ∧ e.1.toList.head? ≠ some '#' ∧
        (e.1.toList.all fun c => c ≠ '=' ∧ c ≠ '\n' ∧ c.toNat ≠ 0) = true ∧
        (e.2.toList.all fun c => c ≠ '\n' ∧ c.toNat ≠ 0) = true := by decide
  obtain ⟨hne, hown, htrim, hhead, hname, hvalue⟩ := hchars e he
  refine ⟨hne, hown, htrim, hhead, fun c hc => ?_, fun c hc => ?_⟩
  · exact of_decide_eq_true (List.all_eq_true.1 hname c hc)
  · exact of_decide_eq_true (List.all_eq_true.1 hvalue c hc)

/-- The name of an inherited property is not read. -/
example : loadEnvFile (some "constructor=x\nKEY=y") (fun _ => none) "constructor" = none := by
  decide

end Startup

end HelixServer
