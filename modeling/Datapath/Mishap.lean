import Datapath.Json
import Datapath.Text.Utf8

/-!
# Mishaps

Graphs, configurations and documents have failures of their own, each with a code and a wording
chosen for the user. A *mishap* is any other failure: a value of the wrong kind where nobody
checked it, a file that cannot be opened, a number that does not fit a double. Mishaps are listed
by cause, and `Mishap.message` holds all their wordings.
-/

namespace Datapath

/-- Why a file could not be opened or made. -/
inductive FileFlaw where
  /-- The path leads nowhere. -/
  | notFound
  /-- A part of the path that should be a directory is a file. -/
  | notDirectory
  /-- The path leads to a directory where a file is needed. -/
  | isDirectory
  /-- Something is there already. -/
  | alreadyThere
  /-- What is there must not be used in this way. -/
  | denied
  /-- A name is longer than names may be. -/
  | nameTooLong
deriving DecidableEq, Repr, Inhabited

/-- The wording of a flaw, with its conventional number. -/
def FileFlaw.message : FileFlaw → String
  | .notFound => "[Errno 2] No such file or directory"
  | .notDirectory => "[Errno 20] Not a directory"
  | .isDirectory => "[Errno 21] Is a directory"
  | .alreadyThere => "[Errno 17] File exists"
  | .denied => "[Errno 13] Permission denied"
  | .nameTooLong => "[Errno 36] File name too long"

/-- A failure that has no code of its own. -/
inductive Mishap where
  /-- A text that spells no integer. -/
  | notAnInteger (text : String)
  /-- `NaN` where an integer is needed. -/
  | nanAsInteger
  /-- An infinity where an integer is needed. -/
  | infinityAsInteger
  /-- A value of a kind that has no integer reading. -/
  | noIntegerReading (kind : String)
  /-- A value that cannot be listed. -/
  | notIterable (kind : String)
  /-- A value that has no items. -/
  | notSubscriptable (kind : String)
  /-- A value that is no place in an array. -/
  | notAnIndex (kind : String)
  /-- An array that is too short. -/
  | arrayTooShort
  /-- A text that is too short. -/
  | textTooShort
  /-- An object without the number that was looked up in it. -/
  | noSuchIndex (index : Nat)
  /-- A node id that no node has. -/
  | noSuchNode (id : Int)
  /-- A value under which there is nothing. -/
  | noSuchKey (key : Json)
  /-- A value that cannot name anything. -/
  | unhashable (kind : String)
  /-- Two values without an order between them. -/
  | noOrder (relation left right : String)
  /-- A value without an operation that its place asks for. -/
  | noOperation (kind operation : String)
  /-- Two values that an operator does not take. -/
  | noOperator (operator left right : String)
  /-- A value that an operator does not take. -/
  | noUnaryOperator (operator kind : String)
  /-- A text or an array to be repeated a number of times that is no integer. -/
  | noRepetition (kind : String)
  /-- A number of times that cannot be counted. -/
  | countTooLarge
  /-- A repeated text whose length cannot be counted. -/
  | textTooLong
  /-- A value that does not continue a text or an array. -/
  | noContinuation (whole part : String)
  /-- An item of another kind among texts that are to be joined. -/
  | notAText (index : Nat) (kind : String)
  /-- A number that should count something and is no integer. -/
  | notACount (kind : String)
  /-- A text where a number should be written in rounded form. -/
  | roundedText
  /-- A value of another kind where a number should be written in rounded form. -/
  | noRoundedForm (kind : String)
  /-- An integer beyond the doubles. -/
  | integerTooLarge
  /-- A ratio beyond the doubles. -/
  | ratioTooLarge
  /-- An interval whose ends are the wrong way round. -/
  | emptyInterval (lo hi : Json)
  /-- A pair that is too short. -/
  | pairTooShort
  /-- An interval with more than two ends. -/
  | tooManyEnds (count : Nat)
  /-- A hull of nothing. -/
  | emptyHull
  /-- A component that is open and has no end. -/
  | endlessComponent
  /-- A least value of none. -/
  | emptyMinimum
  /-- A negative number of bits. -/
  | negativeShift
  /-- An integer that does not fit into memory. -/
  | outOfMemory
  /-- An integer with more digits than can be counted. -/
  | tooManyDigits
  /-- An integer with more decimal digits than are put into words. -/
  | tooLongToWrite (limit : Nat)
  /-- A name outside an enumeration. -/
  | unknownName (name : Json) (enumeration : String)
  /-- A field that does not exist. -/
  | unknownField (owner name : String)
  /-- A document with arrays or objects, as named, that are nested too deep. -/
  | nestedTooDeep (what : String)
  /-- A file that is no UTF-8 text. -/
  | undecodable (error : Utf8.Error)
  /-- A file that cannot be opened. -/
  | file (flaw : FileFlaw) (subject : String)
  /-- A path with the null character in it. -/
  | nullInPath
  /-- A value that is no path. -/
  | notAPath (kind : String)
  /-- A path that begins in the home of nobody known. -/
  | noHome
  /-- An oracle without a command. -/
  | emptyCommand
  /-- A command line with an open quote. -/
  | openQuote
  /-- A command line that ends in an escape. -/
  | openEscape
  /-- A value that the analysis needs and does not find. -/
  | unresolved (what : String)

namespace Mishap

/-- The wording of a mishap. -/
def message : Mishap → String
  | .notAnInteger text =>
    -- a long text is cut, its closing quote included
    "invalid literal for int() with base 10: " ++ String.ofList ((Text.quoted text).toList.take 200)
  | .nanAsInteger => "cannot convert float NaN to integer"
  | .infinityAsInteger => "cannot convert float infinity to integer"
  | .noIntegerReading kind =>
    s!"int() argument must be a string, a bytes-like object or a real number, not '{kind}'"
  | .notIterable kind => s!"'{kind}' object is not iterable"
  | .notSubscriptable kind => s!"'{kind}' object is not subscriptable"
  | .notAnIndex kind => s!"list indices must be integers or slices, not {kind}"
  | .arrayTooShort => "list index out of range"
  | .textTooShort => "string index out of range"
  | .noSuchIndex index => toString index
  | .noSuchNode id => toString id
  | .noSuchKey key => key.display
  | .unhashable kind => s!"unhashable type: '{kind}'"
  | .noOrder relation left right =>
    s!"'{relation}' not supported between instances of '{left}' and '{right}'"
  | .noOperation kind operation => s!"'{kind}' object has no attribute '{operation}'"
  | .noOperator operator left right =>
    s!"unsupported operand type(s) for {operator}: '{left}' and '{right}'"
  | .noUnaryOperator operator kind => s!"bad operand type for {operator}: '{kind}'"
  | .noContinuation whole part => s!"can only concatenate {whole} (not \"{part}\") to {whole}"
  | .countTooLarge => "cannot fit 'int' into an index-sized integer"
  | .textTooLong => "repeated string is too long"
  | .noRepetition kind => s!"can't multiply sequence by non-int of type '{kind}'"
  | .notAText index kind => s!"sequence item {index}: expected str instance, {kind} found"
  | .notACount kind => s!"'{kind}' object cannot be interpreted as an integer"
  | .roundedText => "Unknown format code 'g' for object of type 'str'"
  | .noRoundedForm kind => s!"unsupported format string passed to {kind}.__format__"
  | .integerTooLarge => "int too large to convert to float"
  | .ratioTooLarge => "integer division result too large for a float"
  | .emptyInterval lo hi => s!"empty interval [{lo.plain}, {hi.plain}]"
  | .pairTooShort => "tuple index out of range"
  | .tooManyEnds count =>
    s!"Interval.__init__() takes 3 positional arguments but {count + 1} were given"
  | .emptyHull => "hull of no intervals"
  | .endlessComponent => "pop from empty list"
  | .emptyMinimum => "min() arg is an empty sequence"
  | .negativeShift => "negative shift count"
  | .outOfMemory => ""
  | .tooManyDigits => "too many digits in integer"
  | .tooLongToWrite limit =>
    s!"Exceeds the limit ({limit} digits) for integer string conversion; " ++
      "use sys.set_int_max_str_digits() to increase the limit"
  | .unknownName name enumeration => s!"{name.display} is not a valid {enumeration}"
  | .unknownField owner name =>
    s!"{owner}.__init__() got an unexpected keyword argument '{name}'"
  | .nestedTooDeep what =>
    s!"maximum recursion depth exceeded while decoding a JSON {what} from a unicode string"
  | .undecodable error => error.message
  | .file flaw subject => s!"{flaw.message}: {subject}"
  | .nullInPath => "embedded null byte"
  | .notAPath kind => s!"expected str, bytes or os.PathLike object, not {kind}"
  | .noHome => "Could not determine home directory."
  | .emptyCommand => "oracle command must not be empty"
  | .openQuote => "No closing quotation"
  | .openEscape => "No escaped character"
  | .unresolved what => what

end Mishap

end Datapath
