import TypeRecovery.Signatures.Basic

/-!
# The signatures that come with the library

Functions and classes of PHP with their declared types. An empty declaration records that a function
is known and its type is not.
-/
namespace TypeRecovery.Signatures.Packaged

structure ClassSignature where
  name : String
  parent : Option String := none
  interfaces : List String := []
  methods : List (String × String) := []
  properties : List (String × String) := []
  constants : List (String × String) := []

def ClassSignature.entries (c : ClassSignature) : List Entry :=
  let cls := Key.of c.name
  let members (kind : MemberKind) (ms : List (String × String)) : List Entry :=
    ms.map fun (name, decl) => .member kind cls (Key.of name) (.text decl)
  [.className cls c.name] ++ (c.parent.map fun p => Entry.parent cls (Key.of p)).toList ++
    (if c.interfaces.isEmpty then [] else [.interfaces cls (c.interfaces.map Key.of)]) ++
    members .method c.methods ++ members .property c.properties ++ members .constant c.constants

def functions : List (String × String) :=
  [("abs", "int|float"), ("array_filter", "array"), ("array_key_exists", "bool"),
   ("array_keys", "array"), ("array_map", "array"), ("array_merge", "array"),
   ("array_pop", "mixed"), ("array_push", "int"), ("array_reverse", "array"),
   ("array_search", "mixed"), ("array_shift", "mixed"), ("array_slice", "array"),
   ("array_unique", "array"), ("array_values", "array"), ("ceil", "float"), ("count", "int"),
   ("date", "string"), ("define", "bool"), ("defined", "bool"), ("dirname", "string"),
   ("explode", "string[]"), ("file_exists", "bool"), ("file_get_contents", "string|bool"),
   ("file_put_contents", "int|bool"), ("floor", "float"), ("func_get_args", "array"),
   ("function_exists", "bool"), ("get_class", "string"), ("gettype", "string"),
   ("implode", "string"), ("in_array", "bool"), ("intval", "int"), ("is_array", "bool"),
   ("is_bool", "bool"), ("is_callable", "bool"), ("is_float", "bool"), ("is_int", "bool"),
   ("is_null", "bool"), ("is_numeric", "bool"), ("is_object", "bool"), ("is_string", "bool"),
   ("iterator_to_array", "array"), ("json_decode", "mixed"), ("json_encode", "string|bool"),
   ("ltrim", "string"), ("max", "mixed"), ("microtime", "string|float"), ("min", "mixed"),
   ("mt_rand", "int"), ("preg_match", "int|bool"), ("preg_quote", "string"),
   ("preg_replace", "string|array|null"), ("preg_split", "array|bool"),
   ("print_r", "string|bool"), ("rand", "int"), ("round", "float"), ("rtrim", "string"),
   ("serialize", "string"), ("spl_object_hash", "string"), ("sprintf", "string"),
   ("str_repeat", "string"), ("str_replace", "string|array"), ("strlen", "int"),
   ("strpos", "int|bool"), ("strtolower", "string"), ("strtoupper", "string"),
   ("strval", "string"), ("substr", "string|bool"), ("time", "int"), ("trim", "string"),
   ("ucfirst", "string"), ("unserialize", "mixed"), ("var_dump", ""),
   ("var_export", "string|null")]

def classes : List ClassSignature :=
  [{ name := "Traversable" },
   { name := "Iterator"
     interfaces := ["Traversable"]
     methods := [("current", "mixed"), ("key", "mixed"), ("next", "void"), ("rewind", "void"),
        ("valid", "bool")] },
   { name := "IteratorAggregate"
     interfaces := ["Traversable"]
     methods := [("getIterator", "Traversable")] },
   { name := "SeekableIterator", interfaces := ["Iterator"], methods := [("seek", "void")] },
   { name := "ArrayAccess"
     methods := [("offsetExists", "bool"), ("offsetGet", "mixed"), ("offsetSet", "void"),
        ("offsetUnset", "void")] },
   { name := "Countable", methods := [("count", "int")] },
   { name := "Stringable", methods := [("__toString", "string")] },
   { name := "JsonSerializable", methods := [("jsonSerialize", "mixed")] },
   { name := "Throwable"
     interfaces := ["Stringable"]
     methods := [("getMessage", "string"), ("getCode", "int"), ("getFile", "string"),
        ("getLine", "int"), ("getTrace", "array"), ("getTraceAsString", "string"),
        ("getPrevious", "?Throwable"), ("__toString", "string")] },
   { name := "Exception"
     interfaces := ["Throwable"]
     methods := [("getMessage", "string"), ("getCode", "int"), ("getFile", "string"),
        ("getLine", "int"), ("getTrace", "array"), ("getTraceAsString", "string"),
        ("getPrevious", "?Throwable"), ("__toString", "string")]
     properties := [("message", "string"), ("code", "int"), ("file", "string"), ("line", "int")] },
   { name := "ErrorException"
     parent := some "Exception"
     methods := [("getSeverity", "int")]
     properties := [("severity", "int")] },
   { name := "LogicException", parent := some "Exception" },
   { name := "BadFunctionCallException", parent := some "LogicException" },
   { name := "BadMethodCallException", parent := some "BadFunctionCallException" },
   { name := "DomainException", parent := some "LogicException" },
   { name := "InvalidArgumentException", parent := some "LogicException" },
   { name := "LengthException", parent := some "LogicException" },
   { name := "OutOfRangeException", parent := some "LogicException" },
   { name := "RuntimeException", parent := some "Exception" },
   { name := "OutOfBoundsException", parent := some "RuntimeException" },
   { name := "OverflowException", parent := some "RuntimeException" },
   { name := "RangeException", parent := some "RuntimeException" },
   { name := "UnderflowException", parent := some "RuntimeException" },
   { name := "UnexpectedValueException", parent := some "RuntimeException" },
   { name := "Error"
     interfaces := ["Throwable"]
     methods := [("getMessage", "string"), ("getCode", "int"), ("getFile", "string"),
        ("getLine", "int"), ("getTrace", "array"), ("getTraceAsString", "string"),
        ("getPrevious", "?Throwable"), ("__toString", "string")]
     properties := [("message", "string"), ("code", "int"), ("file", "string"), ("line", "int")] },
   { name := "TypeError", parent := some "Error" },
   { name := "ArgumentCountError", parent := some "TypeError" },
   { name := "ArithmeticError", parent := some "Error" },
   { name := "DivisionByZeroError", parent := some "ArithmeticError" },
   { name := "ArrayIterator"
     interfaces := ["SeekableIterator", "ArrayAccess", "Countable"]
     methods := [("current", "mixed"), ("key", "string|int|null"), ("next", "void"),
        ("rewind", "void"),
        ("valid", "bool"), ("count", "int"), ("getArrayCopy", "array"),
        ("offsetExists", "bool"), ("offsetGet", "mixed"), ("offsetSet", "void"),
        ("offsetUnset", "void"), ("seek", "void")]
     constants := [("STD_PROP_LIST", "int"), ("ARRAY_AS_PROPS", "int")] },
   { name := "RecursiveArrayIterator"
     parent := some "ArrayIterator"
     methods := [("getChildren", "?RecursiveArrayIterator"), ("hasChildren", "bool")]
     constants := [("CHILD_ARRAYS_ONLY", "int")] },
   { name := "ArrayObject"
     interfaces := ["IteratorAggregate", "ArrayAccess", "Countable"]
     methods := [("getIterator", "ArrayIterator"), ("count", "int"), ("getArrayCopy", "array"),
        ("offsetExists", "bool"), ("offsetGet", "mixed"), ("offsetSet", "void"),
        ("offsetUnset", "void")]
     constants := [("STD_PROP_LIST", "int"), ("ARRAY_AS_PROPS", "int")] },
   { name := "Generator"
     interfaces := ["Iterator"]
     methods := [("current", "mixed"), ("key", "mixed"), ("next", "void"), ("rewind", "void"),
        ("valid", "bool"), ("send", "mixed"), ("getReturn", "mixed")] },
   { name := "Closure"
     methods := [("bind", "?Closure"), ("bindTo", "?Closure"), ("call", "mixed"),
        ("fromCallable", "Closure")] },
   { name := "stdClass" },
   { name := "SplObjectStorage"
     interfaces := ["Countable", "Iterator", "ArrayAccess"]
     methods := [("attach", "void"), ("detach", "void"), ("contains", "bool"), ("count", "int"),
        ("current", "object"), ("key", "int"), ("next", "void"), ("rewind", "void"),
        ("valid", "bool"), ("getInfo", "mixed"), ("offsetExists", "bool"),
        ("offsetGet", "mixed")] },
   { name := "SplDoublyLinkedList"
     interfaces := ["Iterator", "Countable", "ArrayAccess"]
     methods := [("count", "int"), ("isEmpty", "bool"), ("pop", "mixed"), ("shift", "mixed"),
        ("top", "mixed"), ("bottom", "mixed"), ("push", "void"), ("unshift", "void")]
     constants := [("IT_MODE_LIFO", "int"), ("IT_MODE_FIFO", "int"), ("IT_MODE_DELETE", "int"),
        ("IT_MODE_KEEP", "int")] },
   { name := "SplStack", parent := some "SplDoublyLinkedList" },
   { name := "SplQueue"
     parent := some "SplDoublyLinkedList"
     methods := [("enqueue", "void"), ("dequeue", "mixed")] },
   { name := "DateTimeInterface"
     methods := [("format", "string"), ("getTimestamp", "int"), ("getOffset", "int"),
        ("getTimezone", "DateTimeZone|bool"), ("diff", "DateInterval")]
     constants := [("ATOM", "string"), ("ISO8601", "string"), ("RFC2822", "string"),
        ("RFC3339", "string"), ("W3C", "string")] },
   { name := "DateTime"
     interfaces := ["DateTimeInterface"]
     methods := [("format", "string"), ("getTimestamp", "int"), ("getOffset", "int"),
        ("getTimezone", "DateTimeZone|bool"), ("diff", "DateInterval"),
        ("modify", "DateTime|bool"), ("setDate", "DateTime"), ("setTime", "DateTime"),
        ("setTimestamp", "DateTime"), ("setTimezone", "DateTime"), ("add", "DateTime"),
        ("sub", "DateTime"), ("createFromFormat", "DateTime|bool")]
     constants := [("ATOM", "string"), ("ISO8601", "string"), ("RFC2822", "string"),
        ("RFC3339", "string"), ("W3C", "string")] },
   { name := "DateTimeImmutable"
     interfaces := ["DateTimeInterface"]
     methods := [("format", "string"), ("getTimestamp", "int"), ("getOffset", "int"),
        ("getTimezone", "DateTimeZone|bool"), ("diff", "DateInterval"),
        ("modify", "DateTimeImmutable|bool"), ("setDate", "DateTimeImmutable"),
        ("setTime", "DateTimeImmutable"), ("setTimestamp", "DateTimeImmutable"),
        ("setTimezone", "DateTimeImmutable"), ("add", "DateTimeImmutable"),
        ("sub", "DateTimeImmutable"), ("createFromFormat", "DateTimeImmutable|bool")]
     constants := [("ATOM", "string"), ("ISO8601", "string"), ("RFC2822", "string"),
        ("RFC3339", "string"), ("W3C", "string")] },
   { name := "DateTimeZone"
     methods := [("getName", "string"), ("getOffset", "int")]
     constants := [("UTC", "int"), ("EUROPE", "int"), ("AMERICA", "int")] },
   { name := "DateInterval"
     methods := [("format", "string")]
     properties := [("y", "int"), ("m", "int"), ("d", "int"), ("h", "int"), ("i", "int"),
        ("s", "int"),
        ("invert", "int"), ("days", "int|bool")] },
   { name := "PDO"
     methods := [("prepare", "PDOStatement|bool"), ("query", "PDOStatement|bool"),
        ("exec", "int|bool"),
        ("lastInsertId", "string"), ("beginTransaction", "bool"), ("commit", "bool"),
        ("rollBack", "bool"), ("quote", "string")]
     constants := [("FETCH_ASSOC", "int"), ("FETCH_OBJ", "int"), ("PARAM_INT", "int"),
        ("PARAM_STR", "int"), ("ATTR_ERRMODE", "int"), ("ERRMODE_EXCEPTION", "int")] },
   { name := "PDOStatement"
     interfaces := ["IteratorAggregate"]
     methods := [("execute", "bool"), ("fetch", "mixed"), ("fetchAll", "array"),
        ("fetchColumn", "mixed"), ("rowCount", "int"), ("bindValue", "bool"),
        ("bindParam", "bool"), ("getIterator", "Iterator")]
     properties := [("queryString", "string")] },
   { name := "PDOException"
     parent := some "RuntimeException"
     properties := [("errorInfo", "array")] }]

end Packaged

/-- The signatures of the packaged functions and classes. -/
def packaged : Signatures :=
  let functions := Packaged.functions.map fun (name, decl) =>
    Entry.function (Key.of name) (.text decl)
  (empty.addAll functions).addAll (Packaged.classes.flatMap Packaged.ClassSignature.entries)

end TypeRecovery.Signatures
