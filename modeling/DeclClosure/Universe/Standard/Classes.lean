import DeclClosure.Universe.Object

/-!
# Classes of the standard environment

The classes that declarations may mention without declaring them: the module and the name, the
bases, the ancestors in lookup order, and the metaclass. Classes are named by their qualified names,
which for the root namespace are bare.
-/

namespace DeclClosure.Standard

/-- A class of the standard environment. -/
structure StandardClass where
  /-- The module. -/
  home : String
  /-- The name within the module. -/
  name : String
  /-- The bases. -/
  bases : List String
  /-- The ancestors in lookup order, without the class itself. -/
  ancestors : List String
  /-- The class of the class. -/
  metaclass : String
deriving Repr

/-- The qualified name. -/
def StandardClass.key (c : StandardClass) : String :=
  if c.home = "builtins" then c.name else c.home ++ "." ++ c.name

/-- Classes of the root namespace. -/
def rootClasses1 : List StandardClass := [
  ⟨"builtins", "bool", ["int"], ["int", "object"], "type"⟩,
  ⟨"builtins", "int", ["object"], ["object"], "type"⟩,
  ⟨"builtins", "object", [], [], "type"⟩,
  ⟨"builtins", "type", ["object"], ["object"], "type"⟩,
  ⟨"builtins", "memoryview", ["object"], ["object"], "type"⟩,
  ⟨"builtins", "bytearray", ["object"], ["object"], "type"⟩,
  ⟨"builtins", "bytes", ["object"], ["object"], "type"⟩,
  ⟨"builtins", "classmethod", ["object"], ["object"], "type"⟩,
  ⟨"builtins", "complex", ["object"], ["object"], "type"⟩,
  ⟨"builtins", "dict", ["object"], ["object"], "type"⟩,
  ⟨"builtins", "enumerate", ["object"], ["object"], "type"⟩,
  ⟨"builtins", "filter", ["object"], ["object"], "type"⟩,
  ⟨"builtins", "float", ["object"], ["object"], "type"⟩,
  ⟨"builtins", "frozenset", ["object"], ["object"], "type"⟩,
  ⟨"builtins", "property", ["object"], ["object"], "type"⟩,
  ⟨"builtins", "list", ["object"], ["object"], "type"⟩,
  ⟨"builtins", "map", ["object"], ["object"], "type"⟩,
  ⟨"builtins", "range", ["object"], ["object"], "type"⟩,
  ⟨"builtins", "reversed", ["object"], ["object"], "type"⟩,
  ⟨"builtins", "set", ["object"], ["object"], "type"⟩,
  ⟨"builtins", "slice", ["object"], ["object"], "type"⟩,
  ⟨"builtins", "staticmethod", ["object"], ["object"], "type"⟩,
  ⟨"builtins", "str", ["object"], ["object"], "type"⟩,
  ⟨"builtins", "super", ["object"], ["object"], "type"⟩,
  ⟨"builtins", "tuple", ["object"], ["object"], "type"⟩,
  ⟨"builtins", "zip", ["object"], ["object"], "type"⟩,
  ⟨"builtins", "BaseException", ["object"], ["object"], "type"⟩,
  ⟨"builtins", "BaseExceptionGroup", ["BaseException"], ["BaseException", "object"], "type"⟩,
  ⟨"builtins", "Exception", ["BaseException"], ["BaseException", "object"], "type"⟩,
  ⟨"builtins", "GeneratorExit", ["BaseException"], ["BaseException", "object"], "type"⟩,
  ⟨"builtins", "KeyboardInterrupt", ["BaseException"], ["BaseException", "object"], "type"⟩,
  ⟨"builtins", "SystemExit", ["BaseException"], ["BaseException", "object"], "type"⟩,
  ⟨"builtins", "ArithmeticError", ["Exception"], ["Exception", "BaseException", "object"], "type"⟩,
  ⟨"builtins", "AssertionError", ["Exception"], ["Exception", "BaseException", "object"], "type"⟩,
  ⟨"builtins", "AttributeError", ["Exception"], ["Exception", "BaseException", "object"], "type"⟩,
  ⟨"builtins", "BufferError", ["Exception"], ["Exception", "BaseException", "object"], "type"⟩,
  ⟨"builtins", "EOFError", ["Exception"], ["Exception", "BaseException", "object"], "type"⟩,
  ⟨"builtins", "ImportError", ["Exception"], ["Exception", "BaseException", "object"], "type"⟩,
  ⟨"builtins", "LookupError", ["Exception"], ["Exception", "BaseException", "object"], "type"⟩,
  ⟨"builtins", "MemoryError", ["Exception"], ["Exception", "BaseException", "object"], "type"⟩,
  ⟨"builtins", "NameError", ["Exception"], ["Exception", "BaseException", "object"], "type"⟩,
  ⟨"builtins", "OSError", ["Exception"], ["Exception", "BaseException", "object"], "type"⟩,
  ⟨"builtins", "ReferenceError", ["Exception"], ["Exception", "BaseException", "object"], "type"⟩,
  ⟨"builtins", "RuntimeError", ["Exception"], ["Exception", "BaseException", "object"], "type"⟩,
  ⟨"builtins", "StopAsyncIteration", ["Exception"], ["Exception", "BaseException", "object"],
    "type"⟩,
  ⟨"builtins", "StopIteration", ["Exception"], ["Exception", "BaseException", "object"], "type"⟩,
  ⟨"builtins", "SyntaxError", ["Exception"], ["Exception", "BaseException", "object"], "type"⟩,
  ⟨"builtins", "SystemError", ["Exception"], ["Exception", "BaseException", "object"], "type"⟩,
  ⟨"builtins", "TypeError", ["Exception"], ["Exception", "BaseException", "object"], "type"⟩,
  ⟨"builtins", "ValueError", ["Exception"], ["Exception", "BaseException", "object"], "type"⟩,
  ⟨"builtins", "Warning", ["Exception"], ["Exception", "BaseException", "object"], "type"⟩,
  ⟨"builtins", "FloatingPointError", ["ArithmeticError"], ["ArithmeticError", "Exception",
    "BaseException", "object"], "type"⟩,
  ⟨"builtins", "OverflowError", ["ArithmeticError"], ["ArithmeticError", "Exception",
    "BaseException", "object"], "type"⟩,
  ⟨"builtins", "ZeroDivisionError", ["ArithmeticError"], ["ArithmeticError", "Exception",
    "BaseException", "object"], "type"⟩,
  ⟨"builtins", "BytesWarning", ["Warning"], ["Warning", "Exception", "BaseException", "object"],
    "type"⟩,
  ⟨"builtins", "DeprecationWarning", ["Warning"], ["Warning", "Exception", "BaseException",
    "object"], "type"⟩,
  ⟨"builtins", "EncodingWarning", ["Warning"], ["Warning", "Exception", "BaseException",
    "object"], "type"⟩,
  ⟨"builtins", "FutureWarning", ["Warning"], ["Warning", "Exception", "BaseException", "object"],
    "type"⟩,
  ⟨"builtins", "ImportWarning", ["Warning"], ["Warning", "Exception", "BaseException", "object"],
    "type"⟩,
  ⟨"builtins", "PendingDeprecationWarning", ["Warning"], ["Warning", "Exception", "BaseException",
    "object"], "type"⟩]

/-- Classes of the root namespace. -/
def rootClasses2 : List StandardClass := [
  ⟨"builtins", "ResourceWarning", ["Warning"], ["Warning", "Exception", "BaseException",
    "object"], "type"⟩,
  ⟨"builtins", "RuntimeWarning", ["Warning"], ["Warning", "Exception", "BaseException", "object"],
    "type"⟩,
  ⟨"builtins", "SyntaxWarning", ["Warning"], ["Warning", "Exception", "BaseException", "object"],
    "type"⟩,
  ⟨"builtins", "UnicodeWarning", ["Warning"], ["Warning", "Exception", "BaseException", "object"],
    "type"⟩,
  ⟨"builtins", "UserWarning", ["Warning"], ["Warning", "Exception", "BaseException", "object"],
    "type"⟩,
  ⟨"builtins", "BlockingIOError", ["OSError"], ["OSError", "Exception", "BaseException",
    "object"], "type"⟩,
  ⟨"builtins", "ChildProcessError", ["OSError"], ["OSError", "Exception", "BaseException",
    "object"], "type"⟩,
  ⟨"builtins", "ConnectionError", ["OSError"], ["OSError", "Exception", "BaseException",
    "object"], "type"⟩,
  ⟨"builtins", "FileExistsError", ["OSError"], ["OSError", "Exception", "BaseException",
    "object"], "type"⟩,
  ⟨"builtins", "FileNotFoundError", ["OSError"], ["OSError", "Exception", "BaseException",
    "object"], "type"⟩,
  ⟨"builtins", "InterruptedError", ["OSError"], ["OSError", "Exception", "BaseException",
    "object"], "type"⟩,
  ⟨"builtins", "IsADirectoryError", ["OSError"], ["OSError", "Exception", "BaseException",
    "object"], "type"⟩,
  ⟨"builtins", "NotADirectoryError", ["OSError"], ["OSError", "Exception", "BaseException",
    "object"], "type"⟩,
  ⟨"builtins", "PermissionError", ["OSError"], ["OSError", "Exception", "BaseException",
    "object"], "type"⟩,
  ⟨"builtins", "ProcessLookupError", ["OSError"], ["OSError", "Exception", "BaseException",
    "object"], "type"⟩,
  ⟨"builtins", "TimeoutError", ["OSError"], ["OSError", "Exception", "BaseException", "object"],
    "type"⟩,
  ⟨"builtins", "IndentationError", ["SyntaxError"], ["SyntaxError", "Exception", "BaseException",
    "object"], "type"⟩,
  ⟨"builtins", "IndexError", ["LookupError"], ["LookupError", "Exception", "BaseException",
    "object"], "type"⟩,
  ⟨"builtins", "KeyError", ["LookupError"], ["LookupError", "Exception", "BaseException",
    "object"], "type"⟩,
  ⟨"builtins", "ModuleNotFoundError", ["ImportError"], ["ImportError", "Exception",
    "BaseException", "object"], "type"⟩,
  ⟨"builtins", "NotImplementedError", ["RuntimeError"], ["RuntimeError", "Exception",
    "BaseException", "object"], "type"⟩,
  ⟨"builtins", "RecursionError", ["RuntimeError"], ["RuntimeError", "Exception", "BaseException",
    "object"], "type"⟩,
  ⟨"builtins", "UnboundLocalError", ["NameError"], ["NameError", "Exception", "BaseException",
    "object"], "type"⟩,
  ⟨"builtins", "UnicodeError", ["ValueError"], ["ValueError", "Exception", "BaseException",
    "object"], "type"⟩,
  ⟨"builtins", "BrokenPipeError", ["ConnectionError"], ["ConnectionError", "OSError", "Exception",
    "BaseException", "object"], "type"⟩,
  ⟨"builtins", "ConnectionAbortedError", ["ConnectionError"], ["ConnectionError", "OSError",
    "Exception", "BaseException", "object"], "type"⟩,
  ⟨"builtins", "ConnectionRefusedError", ["ConnectionError"], ["ConnectionError", "OSError",
    "Exception", "BaseException", "object"], "type"⟩,
  ⟨"builtins", "ConnectionResetError", ["ConnectionError"], ["ConnectionError", "OSError",
    "Exception", "BaseException", "object"], "type"⟩,
  ⟨"builtins", "TabError", ["IndentationError"], ["IndentationError", "SyntaxError", "Exception",
    "BaseException", "object"], "type"⟩,
  ⟨"builtins", "UnicodeDecodeError", ["UnicodeError"], ["UnicodeError", "ValueError", "Exception",
    "BaseException", "object"], "type"⟩,
  ⟨"builtins", "UnicodeEncodeError", ["UnicodeError"], ["UnicodeError", "ValueError", "Exception",
    "BaseException", "object"], "type"⟩,
  ⟨"builtins", "UnicodeTranslateError", ["UnicodeError"], ["UnicodeError", "ValueError",
    "Exception", "BaseException", "object"], "type"⟩,
  ⟨"builtins", "ExceptionGroup", ["BaseExceptionGroup", "Exception"], ["BaseExceptionGroup",
    "Exception", "BaseException", "object"], "type"⟩,
  ⟨"builtins", "mappingproxy", ["object"], ["object"], "type"⟩,
  ⟨"builtins", "wrapper_descriptor", ["object"], ["object"], "type"⟩,
  ⟨"builtins", "method-wrapper", ["object"], ["object"], "type"⟩,
  ⟨"builtins", "method_descriptor", ["object"], ["object"], "type"⟩,
  ⟨"builtins", "function", ["object"], ["object"], "type"⟩,
  ⟨"builtins", "code", ["object"], ["object"], "type"⟩,
  ⟨"builtins", "cell", ["object"], ["object"], "type"⟩,
  ⟨"builtins", "generator", ["object"], ["object"], "type"⟩,
  ⟨"builtins", "coroutine", ["object"], ["object"], "type"⟩,
  ⟨"builtins", "async_generator", ["object"], ["object"], "type"⟩,
  ⟨"builtins", "method", ["object"], ["object"], "type"⟩,
  ⟨"builtins", "builtin_function_or_method", ["object"], ["object"], "type"⟩,
  ⟨"builtins", "classmethod_descriptor", ["object"], ["object"], "type"⟩,
  ⟨"builtins", "module", ["object"], ["object"], "type"⟩,
  ⟨"builtins", "traceback", ["object"], ["object"], "type"⟩,
  ⟨"builtins", "frame", ["object"], ["object"], "type"⟩,
  ⟨"builtins", "getset_descriptor", ["object"], ["object"], "type"⟩,
  ⟨"builtins", "member_descriptor", ["object"], ["object"], "type"⟩,
  ⟨"builtins", "ellipsis", ["object"], ["object"], "type"⟩,
  ⟨"builtins", "NoneType", ["object"], ["object"], "type"⟩,
  ⟨"builtins", "NotImplementedType", ["object"], ["object"], "type"⟩]

/-- Classes of types of objects without a name of their own. -/
def typeObjectsClasses : List StandardClass := [
  ⟨"types", "DynamicClassAttribute", ["object"], ["object"], "type"⟩,
  ⟨"types", "GenericAlias", ["object"], ["object"], "type"⟩,
  ⟨"types", "SimpleNamespace", ["object"], ["object"], "type"⟩,
  ⟨"types", "UnionType", ["object"], ["object"], "type"⟩]

/-- Classes of abstract bases. -/
def abstractBasesClasses : List StandardClass := [
  ⟨"abc", "abstractclassmethod", ["classmethod"], ["classmethod", "object"], "type"⟩,
  ⟨"abc", "abstractstaticmethod", ["staticmethod"], ["staticmethod", "object"], "type"⟩,
  ⟨"abc", "abstractproperty", ["property"], ["property", "object"], "type"⟩,
  ⟨"abc", "ABCMeta", ["type"], ["type", "object"], "type"⟩,
  ⟨"abc", "ABC", ["object"], ["object"], "abc.ABCMeta"⟩]

/-- Classes of the state of abstract bases. -/
def abcStateClasses : List StandardClass := [
  ⟨"_abc", "_abc_data", ["object"], ["object"], "type"⟩]

/-- Classes of enumerations. -/
def enumerationsClasses : List StandardClass := [
  ⟨"enum", "Enum", ["object"], ["object"], "enum.EnumType"⟩,
  ⟨"enum", "EnumType", ["type"], ["type", "object"], "type"⟩,
  ⟨"enum", "Flag", ["enum.Enum"], ["enum.Enum", "object"], "enum.EnumType"⟩,
  ⟨"enum", "ReprEnum", ["enum.Enum"], ["enum.Enum", "object"], "enum.EnumType"⟩,
  ⟨"enum", "nonmember", ["object"], ["object"], "type"⟩,
  ⟨"enum", "member", ["object"], ["object"], "type"⟩,
  ⟨"enum", "auto", ["object"], ["object"], "type"⟩,
  ⟨"enum", "property", ["types.DynamicClassAttribute"], ["types.DynamicClassAttribute", "object"],
    "type"⟩,
  ⟨"enum", "IntEnum", ["int", "enum.ReprEnum"], ["int", "enum.ReprEnum", "enum.Enum", "object"],
    "enum.EnumType"⟩,
  ⟨"enum", "StrEnum", ["str", "enum.ReprEnum"], ["str", "enum.ReprEnum", "enum.Enum", "object"],
    "enum.EnumType"⟩,
  ⟨"enum", "FlagBoundary", ["enum.StrEnum"], ["enum.StrEnum", "str", "enum.ReprEnum", "enum.Enum",
    "object"], "enum.EnumType"⟩,
  ⟨"enum", "IntFlag", ["int", "enum.ReprEnum", "enum.Flag"], ["int", "enum.ReprEnum", "enum.Flag",
    "enum.Enum", "object"], "enum.EnumType"⟩,
  ⟨"enum", "EnumCheck", ["enum.StrEnum"], ["enum.StrEnum", "str", "enum.ReprEnum", "enum.Enum",
    "object"], "enum.EnumType"⟩,
  ⟨"enum", "verify", ["object"], ["object"], "type"⟩]

/-- Classes of collections. -/
def collectionsClasses : List StandardClass := [
  ⟨"collections", "defaultdict", ["dict"], ["dict", "object"], "type"⟩,
  ⟨"collections", "deque", ["object"], ["object"], "type"⟩,
  ⟨"collections", "OrderedDict", ["dict"], ["dict", "object"], "type"⟩,
  ⟨"collections", "Counter", ["dict"], ["dict", "object"], "type"⟩,
  ⟨"collections", "ChainMap", ["collections.abc.MutableMapping"],
    ["collections.abc.MutableMapping", "collections.abc.Mapping", "collections.abc.Collection",
    "collections.abc.Sized", "collections.abc.Iterable", "collections.abc.Container", "object"],
    "abc.ABCMeta"⟩,
  ⟨"collections", "UserDict", ["collections.abc.MutableMapping"],
    ["collections.abc.MutableMapping", "collections.abc.Mapping", "collections.abc.Collection",
    "collections.abc.Sized", "collections.abc.Iterable", "collections.abc.Container", "object"],
    "abc.ABCMeta"⟩,
  ⟨"collections", "UserList", ["collections.abc.MutableSequence"],
    ["collections.abc.MutableSequence", "collections.abc.Sequence", "collections.abc.Reversible",
    "collections.abc.Collection", "collections.abc.Sized", "collections.abc.Iterable",
    "collections.abc.Container", "object"], "abc.ABCMeta"⟩,
  ⟨"collections", "UserString", ["collections.abc.Sequence"], ["collections.abc.Sequence",
    "collections.abc.Reversible", "collections.abc.Collection", "collections.abc.Sized",
    "collections.abc.Iterable", "collections.abc.Container", "object"], "abc.ABCMeta"⟩]

/-- Classes of parts of collections. -/
def collectionPartsClasses : List StandardClass := [
  ⟨"_collections", "_tuplegetter", ["object"], ["object"], "type"⟩]

/-- Classes of collection interfaces. -/
def collectionInterfacesClasses : List StandardClass := [
  ⟨"collections.abc", "MutableMapping", ["collections.abc.Mapping"], ["collections.abc.Mapping",
    "collections.abc.Collection", "collections.abc.Sized", "collections.abc.Iterable",
    "collections.abc.Container", "object"], "abc.ABCMeta"⟩,
  ⟨"collections.abc", "Mapping", ["collections.abc.Collection"], ["collections.abc.Collection",
    "collections.abc.Sized", "collections.abc.Iterable", "collections.abc.Container", "object"],
    "abc.ABCMeta"⟩,
  ⟨"collections.abc", "Collection", ["collections.abc.Sized", "collections.abc.Iterable",
    "collections.abc.Container"], ["collections.abc.Sized", "collections.abc.Iterable",
    "collections.abc.Container", "object"], "abc.ABCMeta"⟩,
  ⟨"collections.abc", "Sized", ["object"], ["object"], "abc.ABCMeta"⟩,
  ⟨"collections.abc", "Iterable", ["object"], ["object"], "abc.ABCMeta"⟩,
  ⟨"collections.abc", "Container", ["object"], ["object"], "abc.ABCMeta"⟩,
  ⟨"collections.abc", "MutableSequence", ["collections.abc.Sequence"],
    ["collections.abc.Sequence", "collections.abc.Reversible", "collections.abc.Collection",
    "collections.abc.Sized", "collections.abc.Iterable", "collections.abc.Container", "object"],
    "abc.ABCMeta"⟩,
  ⟨"collections.abc", "Sequence", ["collections.abc.Reversible", "collections.abc.Collection"],
    ["collections.abc.Reversible", "collections.abc.Collection", "collections.abc.Sized",
    "collections.abc.Iterable", "collections.abc.Container", "object"], "abc.ABCMeta"⟩,
  ⟨"collections.abc", "Reversible", ["collections.abc.Iterable"], ["collections.abc.Iterable",
    "object"], "abc.ABCMeta"⟩,
  ⟨"collections.abc", "Awaitable", ["object"], ["object"], "abc.ABCMeta"⟩,
  ⟨"collections.abc", "Coroutine", ["collections.abc.Awaitable"], ["collections.abc.Awaitable",
    "object"], "abc.ABCMeta"⟩,
  ⟨"collections.abc", "AsyncIterable", ["object"], ["object"], "abc.ABCMeta"⟩,
  ⟨"collections.abc", "AsyncIterator", ["collections.abc.AsyncIterable"],
    ["collections.abc.AsyncIterable", "object"], "abc.ABCMeta"⟩,
  ⟨"collections.abc", "AsyncGenerator", ["collections.abc.AsyncIterator"],
    ["collections.abc.AsyncIterator", "collections.abc.AsyncIterable", "object"], "abc.ABCMeta"⟩,
  ⟨"collections.abc", "Hashable", ["object"], ["object"], "abc.ABCMeta"⟩,
  ⟨"collections.abc", "Iterator", ["collections.abc.Iterable"], ["collections.abc.Iterable",
    "object"], "abc.ABCMeta"⟩,
  ⟨"collections.abc", "Generator", ["collections.abc.Iterator"], ["collections.abc.Iterator",
    "collections.abc.Iterable", "object"], "abc.ABCMeta"⟩,
  ⟨"collections.abc", "Callable", ["object"], ["object"], "abc.ABCMeta"⟩,
  ⟨"collections.abc", "Set", ["collections.abc.Collection"], ["collections.abc.Collection",
    "collections.abc.Sized", "collections.abc.Iterable", "collections.abc.Container", "object"],
    "abc.ABCMeta"⟩,
  ⟨"collections.abc", "MutableSet", ["collections.abc.Set"], ["collections.abc.Set",
    "collections.abc.Collection", "collections.abc.Sized", "collections.abc.Iterable",
    "collections.abc.Container", "object"], "abc.ABCMeta"⟩,
  ⟨"collections.abc", "MappingView", ["collections.abc.Sized"], ["collections.abc.Sized",
    "object"], "abc.ABCMeta"⟩,
  ⟨"collections.abc", "KeysView", ["collections.abc.MappingView", "collections.abc.Set"],
    ["collections.abc.MappingView", "collections.abc.Set", "collections.abc.Collection",
    "collections.abc.Sized", "collections.abc.Iterable", "collections.abc.Container", "object"],
    "abc.ABCMeta"⟩,
  ⟨"collections.abc", "ItemsView", ["collections.abc.MappingView", "collections.abc.Set"],
    ["collections.abc.MappingView", "collections.abc.Set", "collections.abc.Collection",
    "collections.abc.Sized", "collections.abc.Iterable", "collections.abc.Container", "object"],
    "abc.ABCMeta"⟩,
  ⟨"collections.abc", "ValuesView", ["collections.abc.MappingView", "collections.abc.Collection"],
    ["collections.abc.MappingView", "collections.abc.Collection", "collections.abc.Sized",
    "collections.abc.Iterable", "collections.abc.Container", "object"], "abc.ABCMeta"⟩,
  ⟨"collections.abc", "ByteString", ["collections.abc.Sequence"], ["collections.abc.Sequence",
    "collections.abc.Reversible", "collections.abc.Collection", "collections.abc.Sized",
    "collections.abc.Iterable", "collections.abc.Container", "object"], "abc.ABCMeta"⟩]

/-- Classes of weak references. -/
def weakReferencesClasses : List StandardClass := [
  ⟨"weakref", "ReferenceType", ["object"], ["object"], "type"⟩,
  ⟨"weakref", "CallableProxyType", ["object"], ["object"], "type"⟩,
  ⟨"weakref", "ProxyType", ["object"], ["object"], "type"⟩,
  ⟨"weakref", "WeakMethod", ["weakref.ReferenceType"], ["weakref.ReferenceType", "object"],
    "type"⟩,
  ⟨"weakref", "WeakValueDictionary", ["collections.abc.MutableMapping"],
    ["collections.abc.MutableMapping", "collections.abc.Mapping", "collections.abc.Collection",
    "collections.abc.Sized", "collections.abc.Iterable", "collections.abc.Container", "object"],
    "abc.ABCMeta"⟩,
  ⟨"weakref", "KeyedRef", ["weakref.ReferenceType"], ["weakref.ReferenceType", "object"], "type"⟩,
  ⟨"weakref", "WeakKeyDictionary", ["collections.abc.MutableMapping"],
    ["collections.abc.MutableMapping", "collections.abc.Mapping", "collections.abc.Collection",
    "collections.abc.Sized", "collections.abc.Iterable", "collections.abc.Container", "object"],
    "abc.ABCMeta"⟩,
  ⟨"weakref", "finalize", ["object"], ["object"], "type"⟩]

/-- Classes of weak sets. -/
def weakSetsClasses : List StandardClass := [
  ⟨"_weakrefset", "WeakSet", ["object"], ["object"], "type"⟩]

/-- Classes of type forms. -/
def typingClasses : List StandardClass := [
  ⟨"typing", "Any", ["object"], ["object"], "typing._AnyMeta"⟩,
  ⟨"typing", "_AnyMeta", ["type"], ["type", "object"], "type"⟩,
  ⟨"typing", "ForwardRef", ["typing._Final"], ["typing._Final", "object"], "type"⟩,
  ⟨"typing", "_Final", ["object"], ["object"], "type"⟩,
  ⟨"typing", "TypeVar", ["typing._Final", "typing._Immutable", "typing._BoundVarianceMixin",
    "typing._PickleUsingNameMixin"], ["typing._Final", "typing._Immutable",
    "typing._BoundVarianceMixin", "typing._PickleUsingNameMixin", "object"], "type"⟩,
  ⟨"typing", "_Immutable", ["object"], ["object"], "type"⟩,
  ⟨"typing", "_BoundVarianceMixin", ["object"], ["object"], "type"⟩,
  ⟨"typing", "_PickleUsingNameMixin", ["object"], ["object"], "type"⟩,
  ⟨"typing", "TypeVarTuple", ["typing._Final", "typing._Immutable",
    "typing._PickleUsingNameMixin"], ["typing._Final", "typing._Immutable",
    "typing._PickleUsingNameMixin", "object"], "type"⟩,
  ⟨"typing", "ParamSpecArgs", ["typing._Final", "typing._Immutable"], ["typing._Final",
    "typing._Immutable", "object"], "type"⟩,
  ⟨"typing", "ParamSpecKwargs", ["typing._Final", "typing._Immutable"], ["typing._Final",
    "typing._Immutable", "object"], "type"⟩,
  ⟨"typing", "ParamSpec", ["typing._Final", "typing._Immutable", "typing._BoundVarianceMixin",
    "typing._PickleUsingNameMixin"], ["typing._Final", "typing._Immutable",
    "typing._BoundVarianceMixin", "typing._PickleUsingNameMixin", "object"], "type"⟩,
  ⟨"typing", "Generic", ["object"], ["object"], "type"⟩,
  ⟨"typing", "Protocol", ["typing.Generic"], ["typing.Generic", "object"], "typing._ProtocolMeta"⟩,
  ⟨"typing", "_ProtocolMeta", ["abc.ABCMeta"], ["abc.ABCMeta", "type", "object"], "type"⟩,
  ⟨"typing", "Annotated", ["object"], ["object"], "type"⟩,
  ⟨"typing", "SupportsInt", ["typing.Protocol"], ["typing.Protocol", "typing.Generic", "object"],
    "typing._ProtocolMeta"⟩,
  ⟨"typing", "SupportsFloat", ["typing.Protocol"], ["typing.Protocol", "typing.Generic",
    "object"], "typing._ProtocolMeta"⟩,
  ⟨"typing", "SupportsComplex", ["typing.Protocol"], ["typing.Protocol", "typing.Generic",
    "object"], "typing._ProtocolMeta"⟩,
  ⟨"typing", "SupportsBytes", ["typing.Protocol"], ["typing.Protocol", "typing.Generic",
    "object"], "typing._ProtocolMeta"⟩,
  ⟨"typing", "SupportsIndex", ["typing.Protocol"], ["typing.Protocol", "typing.Generic",
    "object"], "typing._ProtocolMeta"⟩,
  ⟨"typing", "SupportsAbs", ["typing.Protocol"], ["typing.Protocol", "typing.Generic", "object"],
    "typing._ProtocolMeta"⟩,
  ⟨"typing", "SupportsRound", ["typing.Protocol"], ["typing.Protocol", "typing.Generic",
    "object"], "typing._ProtocolMeta"⟩,
  ⟨"typing", "NamedTupleMeta", ["type"], ["type", "object"], "type"⟩,
  ⟨"typing", "NewType", ["object"], ["object"], "type"⟩,
  ⟨"typing", "IO", ["typing.Generic"], ["typing.Generic", "object"], "type"⟩,
  ⟨"typing", "BinaryIO", ["typing.IO"], ["typing.IO", "typing.Generic", "object"], "type"⟩,
  ⟨"typing", "TextIO", ["typing.IO"], ["typing.IO", "typing.Generic", "object"], "type"⟩,
  ⟨"typing", "io", ["object"], ["object"], "typing._DeprecatedType"⟩,
  ⟨"typing", "_DeprecatedType", ["type"], ["type", "object"], "type"⟩,
  ⟨"typing", "re", ["object"], ["object"], "typing._DeprecatedType"⟩,
  ⟨"typing", "_GenericAlias", ["typing._BaseGenericAlias"], ["typing._BaseGenericAlias",
    "typing._Final", "object"], "type"⟩,
  ⟨"typing", "_BaseGenericAlias", ["typing._Final"], ["typing._Final", "object"], "type"⟩,
  ⟨"typing", "_CallableGenericAlias", ["typing._NotIterable", "typing._GenericAlias"],
    ["typing._NotIterable", "typing._GenericAlias", "typing._BaseGenericAlias", "typing._Final",
    "object"], "type"⟩,
  ⟨"typing", "_NotIterable", ["object"], ["object"], "type"⟩,
  ⟨"typing", "_UnionGenericAlias", ["typing._NotIterable", "typing._GenericAlias"],
    ["typing._NotIterable", "typing._GenericAlias", "typing._BaseGenericAlias", "typing._Final",
    "object"], "type"⟩,
  ⟨"typing", "_LiteralGenericAlias", ["typing._GenericAlias"], ["typing._GenericAlias",
    "typing._BaseGenericAlias", "typing._Final", "object"], "type"⟩,
  ⟨"typing", "_AnnotatedAlias", ["typing._NotIterable", "typing._GenericAlias"],
    ["typing._NotIterable", "typing._GenericAlias", "typing._BaseGenericAlias", "typing._Final",
    "object"], "type"⟩,
  ⟨"typing", "_SpecialGenericAlias", ["typing._NotIterable", "typing._BaseGenericAlias"],
    ["typing._NotIterable", "typing._BaseGenericAlias", "typing._Final", "object"], "type"⟩,
  ⟨"typing", "_TupleType", ["typing._SpecialGenericAlias"], ["typing._SpecialGenericAlias",
    "typing._NotIterable", "typing._BaseGenericAlias", "typing._Final", "object"], "type"⟩,
  ⟨"typing", "_CallableType", ["typing._SpecialGenericAlias"], ["typing._SpecialGenericAlias",
    "typing._NotIterable", "typing._BaseGenericAlias", "typing._Final", "object"], "type"⟩,
  ⟨"typing", "_SpecialForm", ["typing._Final", "typing._NotIterable"], ["typing._Final",
    "typing._NotIterable", "object"], "type"⟩,
  ⟨"typing", "_LiteralSpecialForm", ["typing._SpecialForm"], ["typing._SpecialForm",
    "typing._Final", "typing._NotIterable", "object"], "type"⟩]

/-- Classes of inspection. -/
def inspectionClasses : List StandardClass := [
  ⟨"inspect", "Attribute", ["tuple"], ["tuple", "object"], "type"⟩,
  ⟨"inspect", "ClassFoundException", ["Exception"], ["Exception", "BaseException", "object"],
    "type"⟩,
  ⟨"inspect", "EndOfBlock", ["Exception"], ["Exception", "BaseException", "object"], "type"⟩,
  ⟨"inspect", "BlockFinder", ["object"], ["object"], "type"⟩,
  ⟨"inspect", "Arguments", ["tuple"], ["tuple", "object"], "type"⟩,
  ⟨"inspect", "FullArgSpec", ["tuple"], ["tuple", "object"], "type"⟩,
  ⟨"inspect", "ArgInfo", ["tuple"], ["tuple", "object"], "type"⟩,
  ⟨"inspect", "ClosureVars", ["tuple"], ["tuple", "object"], "type"⟩,
  ⟨"inspect", "Traceback", ["inspect._Traceback"], ["inspect._Traceback", "tuple", "object"],
    "type"⟩,
  ⟨"inspect", "_Traceback", ["tuple"], ["tuple", "object"], "type"⟩,
  ⟨"inspect", "FrameInfo", ["inspect._FrameInfo"], ["inspect._FrameInfo", "tuple", "object"],
    "type"⟩,
  ⟨"inspect", "_FrameInfo", ["tuple"], ["tuple", "object"], "type"⟩,
  ⟨"inspect", "Parameter", ["object"], ["object"], "type"⟩,
  ⟨"inspect", "BoundArguments", ["object"], ["object"], "type"⟩,
  ⟨"inspect", "Signature", ["object"], ["object"], "type"⟩,
  ⟨"inspect", "_empty", ["object"], ["object"], "type"⟩]

/-- Classes of records. -/
def recordsClasses : List StandardClass := [
  ⟨"dataclasses", "FrozenInstanceError", ["AttributeError"], ["AttributeError", "Exception",
    "BaseException", "object"], "type"⟩,
  ⟨"dataclasses", "InitVar", ["object"], ["object"], "type"⟩,
  ⟨"dataclasses", "Field", ["object"], ["object"], "type"⟩,
  ⟨"dataclasses", "_MISSING_TYPE", ["object"], ["object"], "type"⟩]

/-- All classes. -/
def classes : List StandardClass :=
  rootClasses1 ++ rootClasses2 ++ typeObjectsClasses ++ abstractBasesClasses ++ abcStateClasses
    ++ enumerationsClasses ++ collectionsClasses ++ collectionPartsClasses ++
    collectionInterfacesClasses ++ weakReferencesClasses ++ weakSetsClasses ++ typingClasses ++
    inspectionClasses ++ recordsClasses

/-- The names that keep a class abstract. -/
def abstracts : List (String × List String) := [
  ("typing.SupportsInt", ["__int__"]),
  ("typing.SupportsFloat", ["__float__"]),
  ("typing.SupportsComplex", ["__complex__"]),
  ("typing.SupportsBytes", ["__bytes__"]),
  ("typing.SupportsIndex", ["__index__"]),
  ("typing.SupportsAbs", ["__abs__"]),
  ("typing.SupportsRound", ["__round__"]),
  ("collections.abc.MutableMapping", ["__delitem__", "__getitem__", "__iter__", "__len__",
    "__setitem__"]),
  ("collections.abc.Mapping", ["__getitem__", "__iter__", "__len__"]),
  ("collections.abc.Collection", ["__contains__", "__iter__", "__len__"]),
  ("collections.abc.Sized", ["__len__"]),
  ("collections.abc.Iterable", ["__iter__"]),
  ("collections.abc.Container", ["__contains__"]),
  ("collections.abc.MutableSequence", ["__delitem__", "__getitem__", "__len__", "__setitem__",
    "insert"]),
  ("collections.abc.Sequence", ["__getitem__", "__len__"]),
  ("collections.abc.Reversible", ["__iter__", "__reversed__"]),
  ("collections.abc.Awaitable", ["__await__"]),
  ("collections.abc.Coroutine", ["__await__", "send", "throw"]),
  ("collections.abc.AsyncIterable", ["__aiter__"]),
  ("collections.abc.AsyncIterator", ["__anext__"]),
  ("collections.abc.AsyncGenerator", ["asend", "athrow"]),
  ("collections.abc.Hashable", ["__hash__"]),
  ("collections.abc.Iterator", ["__next__"]),
  ("collections.abc.Generator", ["send", "throw"]),
  ("collections.abc.Callable", ["__call__"]),
  ("collections.abc.Set", ["__contains__", "__iter__", "__len__"]),
  ("collections.abc.MutableSet", ["__contains__", "__iter__", "__len__", "add", "discard"]),
  ("collections.abc.ByteString", ["__getitem__", "__len__"])]

/-- The abstract methods that a class has itself. -/
def abstractMethods : List (String × List String) := [
  ("typing.SupportsInt", ["__int__"]),
  ("typing.SupportsFloat", ["__float__"]),
  ("typing.SupportsComplex", ["__complex__"]),
  ("typing.SupportsBytes", ["__bytes__"]),
  ("typing.SupportsIndex", ["__index__"]),
  ("typing.SupportsAbs", ["__abs__"]),
  ("typing.SupportsRound", ["__round__"]),
  ("collections.abc.MutableMapping", ["__delitem__", "__setitem__"]),
  ("collections.abc.Mapping", ["__getitem__"]),
  ("collections.abc.Sized", ["__len__"]),
  ("collections.abc.Iterable", ["__iter__"]),
  ("collections.abc.Container", ["__contains__"]),
  ("collections.abc.MutableSequence", ["__delitem__", "__setitem__", "insert"]),
  ("collections.abc.Sequence", ["__getitem__"]),
  ("collections.abc.Reversible", ["__reversed__"]),
  ("collections.abc.Awaitable", ["__await__"]),
  ("collections.abc.Coroutine", ["send", "throw"]),
  ("collections.abc.AsyncIterable", ["__aiter__"]),
  ("collections.abc.AsyncIterator", ["__anext__"]),
  ("collections.abc.AsyncGenerator", ["asend", "athrow"]),
  ("collections.abc.Hashable", ["__hash__"]),
  ("collections.abc.Iterator", ["__next__"]),
  ("collections.abc.Generator", ["send", "throw"]),
  ("collections.abc.Callable", ["__call__"]),
  ("collections.abc.MutableSet", ["add", "discard"])]

/-- The other methods that a class has itself, among those that are abstract elsewhere. -/
def methods : List (String × List String) := [
  ("int", ["__abs__", "__float__", "__hash__", "__index__", "__int__", "__round__"]),
  ("object", ["__hash__"]),
  ("type", ["__call__"]),
  ("memoryview", ["__delitem__", "__getitem__", "__hash__", "__iter__", "__len__", "__setitem__"]),
  ("bytearray", ["__contains__", "__delitem__", "__getitem__", "__hash__", "__iter__", "__len__",
    "__setitem__", "insert"]),
  ("bytes", ["__bytes__", "__contains__", "__getitem__", "__hash__", "__iter__", "__len__"]),
  ("complex", ["__abs__", "__complex__", "__hash__"]),
  ("dict", ["__contains__", "__delitem__", "__getitem__", "__hash__", "__iter__", "__len__",
    "__reversed__", "__setitem__"]),
  ("enumerate", ["__iter__", "__next__"]),
  ("filter", ["__iter__", "__next__"]),
  ("float", ["__abs__", "__float__", "__hash__", "__int__", "__round__"]),
  ("frozenset", ["__contains__", "__hash__", "__iter__", "__len__"]),
  ("list", ["__contains__", "__delitem__", "__getitem__", "__hash__", "__iter__", "__len__",
    "__reversed__", "__setitem__", "insert"]),
  ("map", ["__iter__", "__next__"]),
  ("range", ["__contains__", "__getitem__", "__hash__", "__iter__", "__len__", "__reversed__"]),
  ("reversed", ["__iter__", "__next__"]),
  ("set", ["__contains__", "__hash__", "__iter__", "__len__", "add", "discard"]),
  ("slice", ["__hash__"]),
  ("staticmethod", ["__call__"]),
  ("str", ["__contains__", "__getitem__", "__hash__", "__iter__", "__len__"]),
  ("tuple", ["__contains__", "__getitem__", "__hash__", "__iter__", "__len__"]),
  ("zip", ["__iter__", "__next__"]),
  ("mappingproxy", ["__contains__", "__getitem__", "__hash__", "__iter__", "__len__",
    "__reversed__"]),
  ("enum.Enum", ["__hash__"]),
  ("enum.EnumType", ["__call__", "__contains__", "__getitem__", "__iter__", "__len__",
    "__reversed__"]),
  ("enum.Flag", ["__contains__", "__iter__", "__len__"]),
  ("enum.verify", ["__call__"]),
  ("wrapper_descriptor", ["__call__"]),
  ("method-wrapper", ["__call__", "__hash__"]),
  ("method_descriptor", ["__call__"]),
  ("types.GenericAlias", ["__call__", "__getitem__", "__hash__", "__iter__"]),
  ("typing.ForwardRef", ["__hash__"]),
  ("typing.TypeVarTuple", ["__iter__"]),
  ("typing.ParamSpecArgs", ["__hash__"]),
  ("typing.ParamSpecKwargs", ["__hash__"]),
  ("typing.NewType", ["__call__"]),
  ("collections.deque", ["__contains__", "__delitem__", "__getitem__", "__hash__", "__iter__",
    "__len__", "__reversed__", "__setitem__", "insert"]),
  ("collections.OrderedDict", ["__delitem__", "__hash__", "__iter__", "__reversed__",
    "__setitem__"]),
  ("collections.Counter", ["__delitem__", "__hash__"]),
  ("collections.ChainMap", ["__contains__", "__delitem__", "__getitem__", "__iter__", "__len__",
    "__setitem__"]),
  ("collections.abc.Mapping", ["__contains__", "__hash__", "__reversed__"]),
  ("collections.UserDict", ["__contains__", "__delitem__", "__getitem__", "__iter__", "__len__",
    "__setitem__"]),
  ("collections.UserList", ["__contains__", "__delitem__", "__getitem__", "__hash__", "__len__",
    "__setitem__", "insert"]),
  ("collections.abc.Sequence", ["__contains__", "__iter__", "__reversed__"]),
  ("collections.UserString", ["__complex__", "__contains__", "__float__", "__getitem__",
    "__hash__", "__int__", "__len__"]),
  ("collections.abc.AsyncIterator", ["__aiter__"]),
  ("collections.abc.AsyncGenerator", ["__anext__"]),
  ("collections.abc.Iterator", ["__iter__"]),
  ("collections.abc.Generator", ["__next__"]),
  ("collections.abc.Set", ["__hash__"]),
  ("collections.abc.MappingView", ["__len__"]),
  ("collections.abc.KeysView", ["__contains__", "__iter__"]),
  ("collections.abc.ItemsView", ["__contains__", "__iter__"]),
  ("collections.abc.ValuesView", ["__contains__", "__iter__"]),
  ("weakref.ReferenceType", ["__call__", "__hash__"]),
  ("weakref.CallableProxyType", ["__abs__", "__call__", "__contains__", "__delitem__",
    "__float__", "__getitem__", "__hash__", "__index__", "__int__", "__iter__", "__len__",
    "__next__", "__setitem__"]),
  ("weakref.ProxyType", ["__abs__", "__bytes__", "__contains__", "__delitem__", "__float__",
    "__getitem__", "__hash__", "__index__", "__int__", "__iter__", "__len__", "__next__",
    "__reversed__", "__setitem__"]),
  ("_weakrefset.WeakSet", ["__contains__", "__hash__", "__iter__", "__len__", "add", "discard"]),
  ("weakref.WeakMethod", ["__call__", "__hash__"]),
  ("weakref.WeakValueDictionary", ["__contains__", "__delitem__", "__getitem__", "__iter__",
    "__len__", "__setitem__"]),
  ("weakref.WeakKeyDictionary", ["__contains__", "__delitem__", "__getitem__", "__iter__",
    "__len__", "__setitem__"]),
  ("weakref.finalize", ["__call__"]),
  ("inspect.Parameter", ["__hash__"]),
  ("inspect.BoundArguments", ["__hash__"]),
  ("inspect.Signature", ["__hash__"]),
  ("function", ["__call__"]),
  ("code", ["__hash__"]),
  ("types.SimpleNamespace", ["__hash__"]),
  ("cell", ["__hash__"]),
  ("generator", ["__iter__", "__next__", "send", "throw"]),
  ("coroutine", ["__await__", "send", "throw"]),
  ("async_generator", ["__aiter__", "__anext__", "asend", "athrow"]),
  ("method", ["__call__", "__hash__"]),
  ("builtin_function_or_method", ["__call__", "__hash__"]),
  ("classmethod_descriptor", ["__call__"]),
  ("types.UnionType", ["__getitem__", "__hash__"]),
  ("typing._GenericAlias", ["__getitem__", "__hash__", "__iter__"]),
  ("typing._BaseGenericAlias", ["__call__"]),
  ("typing._NotIterable", ["__iter__"]),
  ("typing._UnionGenericAlias", ["__hash__"]),
  ("typing._LiteralGenericAlias", ["__hash__"]),
  ("typing._AnnotatedAlias", ["__hash__"]),
  ("typing._SpecialGenericAlias", ["__getitem__"]),
  ("typing._TupleType", ["__getitem__"]),
  ("typing._CallableType", ["__getitem__"]),
  ("typing._SpecialForm", ["__call__", "__getitem__"]),
  ("typing._LiteralSpecialForm", ["__getitem__"])]

/-- The classes with functions that have a file. -/
def codedClasses : List String := [
  "types.DynamicClassAttribute", "enum.Enum", "enum.EnumType", "enum.Flag", "enum.ReprEnum",
    "enum.nonmember", "enum.member", "enum.auto", "enum.property", "enum.IntEnum", "enum.StrEnum",
    "enum.FlagBoundary", "enum.IntFlag", "enum.EnumCheck", "enum.verify",
    "abc.abstractclassmethod", "abc.abstractstaticmethod", "abc.ABCMeta", "typing.Any",
    "typing._AnyMeta", "typing.ForwardRef", "typing._Final", "typing.TypeVar",
    "typing._Immutable", "typing._BoundVarianceMixin", "typing._PickleUsingNameMixin",
    "typing.TypeVarTuple", "typing.ParamSpecArgs", "typing.ParamSpecKwargs", "typing.ParamSpec",
    "typing.Generic", "typing.Protocol", "typing._ProtocolMeta", "typing.Annotated",
    "typing.SupportsInt", "typing.SupportsFloat", "typing.SupportsComplex",
    "typing.SupportsBytes", "typing.SupportsIndex", "typing.SupportsAbs", "typing.SupportsRound",
    "typing.NamedTupleMeta", "typing.NewType", "typing.IO", "typing.BinaryIO", "typing.TextIO",
    "typing._DeprecatedType", "collections.Counter", "collections.ChainMap",
    "collections.abc.MutableMapping", "collections.abc.Mapping", "collections.abc.Collection",
    "collections.abc.Sized", "collections.abc.Iterable", "collections.abc.Container",
    "collections.UserDict", "collections.UserList", "collections.abc.MutableSequence",
    "collections.abc.Sequence", "collections.abc.Reversible", "collections.UserString",
    "collections.abc.Awaitable", "collections.abc.Coroutine", "collections.abc.AsyncIterable",
    "collections.abc.AsyncIterator", "collections.abc.AsyncGenerator", "collections.abc.Hashable",
    "collections.abc.Iterator", "collections.abc.Generator", "collections.abc.Callable",
    "collections.abc.Set", "collections.abc.MutableSet", "collections.abc.MappingView",
    "collections.abc.KeysView", "collections.abc.ItemsView", "collections.abc.ValuesView",
    "_weakrefset.WeakSet", "weakref.WeakMethod", "weakref.WeakValueDictionary",
    "weakref.KeyedRef", "weakref.WeakKeyDictionary", "weakref.finalize", "inspect.Attribute",
    "inspect.BlockFinder", "inspect.Arguments", "inspect.FullArgSpec", "inspect.ArgInfo",
    "inspect.ClosureVars", "inspect.Traceback", "inspect._Traceback", "inspect.FrameInfo",
    "inspect._FrameInfo", "inspect.Parameter", "inspect.BoundArguments", "inspect.Signature",
    "dataclasses.InitVar", "dataclasses.Field", "typing._GenericAlias",
    "typing._BaseGenericAlias", "typing._CallableGenericAlias", "typing._UnionGenericAlias",
    "typing._LiteralGenericAlias", "typing._AnnotatedAlias", "typing._SpecialGenericAlias",
    "typing._TupleType", "typing._CallableType", "typing._SpecialForm",
    "typing._LiteralSpecialForm"]

/-- The classes that take arguments as the classes of the language core do. -/
def subscriptableClasses : List String := [
  "dict", "enumerate", "frozenset", "list", "set", "tuple", "BaseExceptionGroup",
    "ExceptionGroup", "mappingproxy", "collections.defaultdict", "collections.deque",
    "collections.OrderedDict", "collections.Counter", "collections.ChainMap",
    "collections.abc.MutableMapping", "collections.abc.Mapping", "collections.abc.Collection",
    "collections.abc.Iterable", "collections.abc.Container", "collections.UserDict",
    "collections.UserList", "collections.abc.MutableSequence", "collections.abc.Sequence",
    "collections.abc.Reversible", "collections.UserString", "collections.abc.Awaitable",
    "collections.abc.Coroutine", "collections.abc.AsyncIterable", "collections.abc.AsyncIterator",
    "collections.abc.AsyncGenerator", "collections.abc.Iterator", "collections.abc.Generator",
    "collections.abc.Callable", "collections.abc.Set", "collections.abc.MutableSet",
    "collections.abc.MappingView", "collections.abc.KeysView", "collections.abc.ItemsView",
    "collections.abc.ValuesView", "collections.abc.ByteString", "weakref.ReferenceType",
    "_weakrefset.WeakSet", "weakref.WeakMethod", "weakref.WeakValueDictionary",
    "weakref.KeyedRef", "weakref.WeakKeyDictionary", "inspect.Attribute", "inspect.Arguments",
    "inspect.FullArgSpec", "inspect.ArgInfo", "inspect.ClosureVars", "inspect.Traceback",
    "inspect._Traceback", "inspect.FrameInfo", "inspect._FrameInfo", "async_generator",
    "dataclasses.InitVar", "dataclasses.Field"]

/-- The documentation of exceptions. -/
def documentation : List (String × String) := [
  ("BaseException", "Common base class for all exceptions"),
  ("Exception", "Common base class for all non-exit exceptions."),
  ("ArithmeticError", "Base class for arithmetic errors."),
  ("LookupError", "Base class for lookup errors."),
  ("OSError", "Base class for I/O related errors."),
  ("ValueError", "Inappropriate argument value (of correct type)."),
  ("ZeroDivisionError", "Second argument to a division or modulo operation was zero."),
  ("KeyError", "Mapping key not found.")]

end DeclClosure.Standard
