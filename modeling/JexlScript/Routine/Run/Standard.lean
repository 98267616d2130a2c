import JexlScript.Routine.Run.Store

/-!
# Standard names, classes and attributes

The names that every module finds, the classes that data belong to, and how
attributes are found and given. A `Machine` evaluates, calls, runs and asks
iterators for more; the layers of a run are functions of the machine one level
deeper.
-/

namespace JexlScript.Routine

open Run

/-! ## Standard names -/

def words (text : String) : List String :=
  ((text.replace "\n" " ").splitOn " ").filter fun word => !word.isEmpty

def builtinNames : List String := words
  "Ellipsis NotImplemented __build_class__ __doc__ __import__ __loader__ __package__ __spec__ abs
   aiter all anext any ascii bin bool breakpoint bytearray bytes callable chr classmethod compile
   complex copyright credits delattr dict dir divmod enumerate eval exec exit filter float format
   frozenset getattr globals hasattr hash help hex id input int isinstance issubclass iter len
   license list locals map max memoryview min next object oct open ord pow print property quit
   range repr reversed round set setattr slice sorted staticmethod str sum super tuple type vars
   zip"

def classNames : List String := words
  "bool bytearray bytes classmethod complex dict enumerate filter float frozenset int list map
   memoryview object property range reversed set slice staticmethod str super tuple type zip
   NoneType function method generator builtin_function_or_method"

def moduleNames : List String := words
  "abc aifc argparse array ast asyncio atexit audioop base64 bdb binascii bisect builtins bz2
   cProfile calendar cgi cgitb chunk cmath cmd code codecs codeop collections colorsys compileall
   concurrent configparser contextlib contextvars copy copyreg crypt csv ctypes curses dataclasses
   datetime dbm decimal difflib dis doctest email encodings ensurepip enum errno faulthandler fcntl
   filecmp fileinput fnmatch fractions ftplib functools gc genericpath getopt getpass gettext glob
   graphlib grp gzip hashlib heapq hmac html http imaplib imghdr importlib inspect io ipaddress
   itertools json keyword linecache locale logging lzma mailbox mailcap marshal math mimetypes mmap
   modulefinder multiprocessing netrc nis nntplib ntpath numbers opcode operator optparse os
   pathlib pdb pickle pickletools pipes pkgutil platform plistlib poplib posix posixpath pprint
   profile pstats pty pwd py_compile pyclbr pydoc pyexpat queue quopri random re readline reprlib
   resource rlcompleter runpy sched secrets select selectors shelve shlex shutil signal site
   smtplib sndhdr socket socketserver spwd sqlite3 ssl stat statistics string stringprep struct
   subprocess sunau symtable sys sysconfig syslog tabnanny tarfile telnetlib tempfile termios
   textwrap threading time timeit tkinter token tokenize tomllib trace traceback tracemalloc tty
   turtle types typing unicodedata unittest urllib uu uuid venv warnings wave weakref webbrowser
   wsgiref xdrlib xml xmlrpc zipapp zipfile zipimport zlib zoneinfo"

/-- The kinds of exceptions that are cases of a kind, by that kind. -/
def exceptionCases : List (String × List String) :=
  [("BaseException", words "BaseExceptionGroup Exception GeneratorExit KeyboardInterrupt
      SystemExit"),
    ("Exception", words "ArithmeticError AssertionError AttributeError BufferError EOFError
      ImportError LookupError MemoryError NameError OSError ReferenceError RuntimeError
      StopAsyncIteration StopIteration SyntaxError SystemError TypeError ValueError Warning"),
    ("ArithmeticError", words "FloatingPointError OverflowError ZeroDivisionError"),
    ("ImportError", ["ModuleNotFoundError"]), ("LookupError", ["IndexError", "KeyError"]),
    ("NameError", ["UnboundLocalError"]),
    ("OSError", words "BlockingIOError ChildProcessError ConnectionError FileExistsError
      FileNotFoundError InterruptedError IsADirectoryError NotADirectoryError PermissionError
      ProcessLookupError TimeoutError"),
    ("RuntimeError", ["NotImplementedError", "RecursionError"]),
    ("SyntaxError", ["IndentationError"]), ("ValueError", ["UnicodeError"]),
    ("Warning", words "DeprecationWarning FutureWarning RuntimeWarning SyntaxWarning UserWarning")]

def exceptionParent? (name : String) : Option String :=
  (exceptionCases.find? fun (_, cases) => cases.contains name).map Prod.fst

def isException (name : String) : Bool :=
  name = "BaseException" || (exceptionParent? name).isSome

def isStandardClass (name : String) : Bool := classNames.contains name || isException name

def isStandard (name : String) : Bool := builtinNames.contains name || isException name

/-- The kinds of exceptions that a kind is a case of, itself first; `depth`
bounds how far they are followed. -/
def exceptionLine : (depth : Nat) → (name : String) → List String
  | 0, _ => []
  | depth + 1, name => name :: ((exceptionParent? name).map (exceptionLine depth)).getD ["object"]

def standardLine (name : String) : List String :=
  if isException name then exceptionLine 10 name
  else if name = "bool" then ["bool", "int", "object"]
  else [name, "object"]

/-- Whether what a datum does is not known: it comes from a module whose text is
not at hand. -/
def Datum.isForeign : Datum → Bool
  | .unknown => true
  | .standard name => !(isStandard name || isStandardClass name)
  | _ => false

inductive Pause where
  | yielded (value : Datum) (work : List Work)
  | ended (result : Datum)

inductive Advance where
  | more (value : Datum)
  | done (result : Datum)

structure Machine where
  value : Scope → Expr → Run Datum
  call : Datum → List Datum → List (String × Datum) → Run Datum
  run : Scope → List Work → Signal → Run Pause
  next : Datum → Signal → Run Advance

/-! ## Classes -/

namespace Run

def isClassDatum (d : Datum) : Run Bool := do
  match d, ← object? d with
  | .standard name, _ => pure (isStandardClass name)
  | _, some (.type ..) => pure true
  | _, _ => pure false

def typeOf (d : Datum) : Run Datum := do
  match d, ← object? d with
  | .nothing, _ => pure (.standard "NoneType")
  | .bool _, _ => pure (.standard "bool")
  | .int _, _ => pure (.standard "int")
  | .double _, _ => pure (.standard "float")
  | .text _, _ => pure (.standard "str")
  | .tuple _, _ => pure (.standard "tuple")
  | .standard name, _ =>
    pure (if isStandardClass name then .standard "type"
      else if isStandard name then .standard "builtin_function_or_method"
      else .unknown)
  | .bound .., _ => pure (.standard "builtin_function_or_method")
  | _, some (.items isSet _) => pure (.standard (if isSet then "set" else "list"))
  | _, some (.entries _) => pure (.standard "dict")
  | _, some (.function ..) => pure (.standard "function")
  | _, some (.type ..) => pure (.standard "type")
  | _, some (.record type _) => pure type
  | _, some (.method ..) => pure (.standard "method")
  | _, some (.static _) => pure (.standard "staticmethod")
  | _, some (.ofClass _) => pure (.standard "classmethod")
  | _, some (.property ..) => pure (.standard "property")
  | _, some (.iterator _) => pure (.standard "generator")
  | _, some (.parent ..) => pure (.standard "super")
  | _, none => pure .unknown

/-- A class with the classes that it takes attributes from, itself first. -/
def lineageOf (type : Datum) : Run (List Datum) := do
  match type, ← object? type with
  | .standard name, _ => pure ((standardLine name).map Datum.standard)
  | type, some (.type _ line _) => pure (type :: line)
  | _, _ => pure [.unknown]

/-- The classes that a class takes attributes from after itself. One that several
of its bases come from stands after them all. -/
def lineAfter (bases : List Datum) : Run (List Datum) := do
  let lines ← bases.mapM lineageOf
  pure ((lines.flatten ++ [Datum.standard "object"]).foldr
    (fun c line => if line.any c.same then line else c :: line) [])

def isA (d : Datum) (name : String) : Run Bool := do
  pure ((← lineageOf (← typeOf d)).any (Datum.same (.standard name)))

/-- Whether a datum is an instance of a class that is not known. -/
def isForeignRecord (d : Datum) : Run Bool := do
  pure ((← lineageOf (← typeOf d)).any Datum.isForeign)

/-- What the first of several classes that has an attribute keeps under its
name. -/
def keptAmong? (name : String) (line : List Datum) : Run (Option Datum) := do
  let frames ← line.filterMapM fun d => do
    match ← object? d with
    | some (.type _ _ attributes) => pure (some attributes)
    | _ => pure none
  namedIn? name frames

/-- What the class of an object keeps under a name. -/
def special? (d : Datum) (name : String) : Run (Option Datum) := do
  match ← object? d with
  | some (.record type _) => keptAmong? name (← lineageOf type)
  | _ => pure none

/-- A part of a run that may fail with an exception of a standard kind, for which
there is something else. -/
def orElseFor {α : Type} (p : Run α) (name : String) (other : Datum → Run α) : Run α := do
  match ← observe p with
  | .ok a => pure a
  | .error what => if ← isA what name then other what else throw (.raised what)

end Run

namespace Machine

variable (m : Machine)

/-! ## Attributes -/

/-- What is kept by a class, as it is handed out by the class itself or by an
instance of it. -/
def handOut (subject : Option Datum) (type kept : Datum) : Run Datum := do
  match ← object? kept, subject with
  | some (.function ..), some d => make (.method d kept)
  | some (.static f), _ => pure f
  | some (.ofClass f), _ => make (.method type f)
  | some (.property getter _), some d => m.call getter [d] []
  | _, _ => pure kept

/-- What the method of a name that the class of a datum was written with
gives. -/
def callMethod? (d : Datum) (name : String) (args : List Datum) : Run (Option Datum) := do
  match ← special? d name with
  | some kept =>
    let f ← m.handOut (some d) (← typeOf d) kept
    let value ← m.call f args []
    pure (some value)
  | none => pure none

def plainAttribute (d : Datum) (name : String) : Run Datum := do
  match name with
  | "__class__" => typeOf d
  | "__doc__" => pure .nothing
  | name => if name.startsWith "__" then raise "AttributeError" else pure (.bound d name)

def functionAttribute (d : Datum) (attributes : Nat) (name : String) : Run Datum := do
  match ← named? attributes name, name with
  | some value, _ => pure value
  | none, "__dict__" => pure (.object attributes)
  | none, "__class__" => pure (.standard "function")
  | none, "__get__" | none, "__call__" => pure (.bound d name)
  | none, "__code__" | none, "__closure__" => pure .unknown
  | none, _ => raise "AttributeError"

def typeAttribute (d : Datum) (typeName : String) (line : List Datum) (attributes : Nat)
    (name : String) : Run Datum := do
  match ← keptAmong? name (d :: line), name with
  | some kept, _ => m.handOut none d kept
  | none, "__name__" | none, "__qualname__" => pure (.text typeName)
  | none, "__dict__" => pure (.object attributes)
  | none, "__mro__" => pure (.tuple (d :: line))
  | none, _ => if line.any Datum.isForeign then pure .unknown else raise "AttributeError"

def recordAttribute (d type : Datum) (attributes : Nat) (name : String) : Run Datum := do
  let kept ← keptAmong? name (← lineageOf type)
  let kind ← match kept with
    | some kept => object? kept
    | none => pure none
  match kind, ← named? attributes name, kept with
  | some (.property ..), _, some kept => m.handOut (some d) type kept
  | _, some value, _ => pure value
  | _, none, some kept => m.handOut (some d) type kept
  | _, none, none =>
    match name with
    | "__dict__" => pure (.object attributes)
    | "__class__" => pure type
    | name =>
      match ← m.callMethod? d "__getattr__" [.text name] with
      | some value => pure value
      | none => if ← isForeignRecord d then pure .unknown else raise "AttributeError"

/-- The attribute that the classes after a class give its instance. -/
def parentAttribute (type subject : Datum) (name : String) : Run Datum := do
  let isType ← isClassDatum subject
  let own ← if isType then pure subject else typeOf subject
  let after := ((← lineageOf own).dropWhile fun c => !c.same type).drop 1
  match ← keptAmong? name after with
  | some kept => m.handOut (if isType then none else some subject) own kept
  | none =>
    if after.any Datum.isForeign then pure .unknown
    else if name = "__init__" || name = "__init_subclass__" then pure (.bound subject name)
    else raise "AttributeError"

def attributeOf (d : Datum) (name : String) : Run Datum := do
  match d, ← object? d with
  | .unknown, _ => pure .unknown
  | .standard owner, _ =>
    match name with
    | "__name__" | "__qualname__" => pure (.text owner)
    | "__doc__" => pure .nothing
    | name =>
      pure (if isStandardClass owner then .bound d name else .standard (owner ++ "." ++ name))
  | d, some (.function _ _ attributes) => functionAttribute d attributes name
  | d, some (.type typeName line attributes) => m.typeAttribute d typeName line attributes name
  | d, some (.record type attributes) => m.recordAttribute d type attributes name
  | d, some (.method subject f) =>
    match name, ← object? f with
    | "__self__", _ => pure subject
    | "__func__", _ => pure f
    | name, some (.function _ _ attributes) => functionAttribute f attributes name
    | name, _ => plainAttribute d name
  | d, some (.static f) | d, some (.ofClass f) =>
    if name = "__func__" || name = "__wrapped__" then pure f else plainAttribute d name
  | d, some (.property getter _) =>
    if name = "fget" then pure getter else plainAttribute d name
  | _, some (.parent type subject) => m.parentAttribute type subject name
  | d, _ => plainAttribute d name

def attribute? (d : Datum) (name : String) : Run (Option Datum) :=
  orElseFor (do pure (some (← m.attributeOf d name))) "AttributeError" fun _ => pure none

/-- The dictionary of the attributes that something was given. -/
def attributesOf? (d : Datum) : Run (Option Nat) := do
  match ← object? d with
  | some (.function _ _ attributes) | some (.type _ _ attributes) | some (.record _ attributes) =>
    pure (some attributes)
  | _ => pure none

def giveAttribute (d : Datum) (name : String) (value : Datum) : Run Unit := do
  let kept ← match ← special? d name with
    | some kept => object? kept
    | none => pure none
  match kept, ← attributesOf? d with
  | some (.property _ setter), _ =>
    let _ ← m.call setter [d, value] []
  | _, some attributes => giveName attributes name value
  | _, none => if d.isForeign then pure () else raise "AttributeError"

def dropAttribute (d : Datum) (name : String) : Run Unit := do
  match ← attributesOf? d with
  | some attributes => changeEntries attributes (withoutEntry (.text name))
  | none => pure ()

end Machine

end JexlScript.Routine
