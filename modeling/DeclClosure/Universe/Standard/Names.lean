import DeclClosure.Universe.Standard.Classes

/-!
# Names of the standard environment

What the names of the standard modules stand for.
-/

namespace DeclClosure.Standard

/-- What a name of a standard module stands for. -/
inductive Referent where
  | class (key : String)
  | module (name : String)
  | function
  | builtin
  /-- A type form without arguments: its class. -/
  | form (cls : String)
  | typeVariable
  | atom (a : Atom)
  /-- An instance of a class. -/
  | thing (cls : String)
deriving Repr

/-- Names of the root namespace. -/
def rootNames : List (String × Referent) := [
  ("__build_class__", .builtin),
  ("__import__", .builtin),
  ("abs", .builtin),
  ("all", .builtin),
  ("any", .builtin),
  ("ascii", .builtin),
  ("bin", .builtin),
  ("breakpoint", .builtin),
  ("callable", .builtin),
  ("chr", .builtin),
  ("compile", .builtin),
  ("delattr", .builtin),
  ("dir", .builtin),
  ("divmod", .builtin),
  ("eval", .builtin),
  ("exec", .builtin),
  ("format", .builtin),
  ("getattr", .builtin),
  ("globals", .builtin),
  ("hasattr", .builtin),
  ("hash", .builtin),
  ("hex", .builtin),
  ("id", .builtin),
  ("input", .builtin),
  ("isinstance", .builtin),
  ("issubclass", .builtin),
  ("iter", .builtin),
  ("aiter", .builtin),
  ("len", .builtin),
  ("locals", .builtin),
  ("max", .builtin),
  ("min", .builtin),
  ("next", .builtin),
  ("anext", .builtin),
  ("oct", .builtin),
  ("ord", .builtin),
  ("pow", .builtin),
  ("print", .builtin),
  ("repr", .builtin),
  ("round", .builtin),
  ("setattr", .builtin),
  ("sorted", .builtin),
  ("sum", .builtin),
  ("vars", .builtin),
  ("None", .atom .none),
  ("Ellipsis", .atom .ellipsis),
  ("NotImplemented", .atom .notImplemented),
  ("False", .atom (.bool false)),
  ("True", .atom (.bool true)),
  ("bool", .class "bool"),
  ("memoryview", .class "memoryview"),
  ("bytearray", .class "bytearray"),
  ("bytes", .class "bytes"),
  ("classmethod", .class "classmethod"),
  ("complex", .class "complex"),
  ("dict", .class "dict"),
  ("enumerate", .class "enumerate"),
  ("filter", .class "filter"),
  ("float", .class "float"),
  ("frozenset", .class "frozenset"),
  ("property", .class "property"),
  ("int", .class "int"),
  ("list", .class "list"),
  ("map", .class "map"),
  ("object", .class "object"),
  ("range", .class "range"),
  ("reversed", .class "reversed"),
  ("set", .class "set"),
  ("slice", .class "slice"),
  ("staticmethod", .class "staticmethod"),
  ("str", .class "str"),
  ("super", .class "super"),
  ("tuple", .class "tuple"),
  ("type", .class "type"),
  ("zip", .class "zip"),
  ("BaseException", .class "BaseException"),
  ("BaseExceptionGroup", .class "BaseExceptionGroup"),
  ("Exception", .class "Exception"),
  ("GeneratorExit", .class "GeneratorExit"),
  ("KeyboardInterrupt", .class "KeyboardInterrupt"),
  ("SystemExit", .class "SystemExit"),
  ("ArithmeticError", .class "ArithmeticError"),
  ("AssertionError", .class "AssertionError"),
  ("AttributeError", .class "AttributeError"),
  ("BufferError", .class "BufferError"),
  ("EOFError", .class "EOFError"),
  ("ImportError", .class "ImportError"),
  ("LookupError", .class "LookupError"),
  ("MemoryError", .class "MemoryError"),
  ("NameError", .class "NameError"),
  ("OSError", .class "OSError"),
  ("ReferenceError", .class "ReferenceError"),
  ("RuntimeError", .class "RuntimeError"),
  ("StopAsyncIteration", .class "StopAsyncIteration"),
  ("StopIteration", .class "StopIteration"),
  ("SyntaxError", .class "SyntaxError"),
  ("SystemError", .class "SystemError"),
  ("TypeError", .class "TypeError"),
  ("ValueError", .class "ValueError"),
  ("Warning", .class "Warning"),
  ("FloatingPointError", .class "FloatingPointError"),
  ("OverflowError", .class "OverflowError"),
  ("ZeroDivisionError", .class "ZeroDivisionError"),
  ("BytesWarning", .class "BytesWarning"),
  ("DeprecationWarning", .class "DeprecationWarning"),
  ("EncodingWarning", .class "EncodingWarning"),
  ("FutureWarning", .class "FutureWarning"),
  ("ImportWarning", .class "ImportWarning"),
  ("PendingDeprecationWarning", .class "PendingDeprecationWarning"),
  ("ResourceWarning", .class "ResourceWarning"),
  ("RuntimeWarning", .class "RuntimeWarning"),
  ("SyntaxWarning", .class "SyntaxWarning"),
  ("UnicodeWarning", .class "UnicodeWarning"),
  ("UserWarning", .class "UserWarning"),
  ("BlockingIOError", .class "BlockingIOError"),
  ("ChildProcessError", .class "ChildProcessError"),
  ("ConnectionError", .class "ConnectionError"),
  ("FileExistsError", .class "FileExistsError"),
  ("FileNotFoundError", .class "FileNotFoundError"),
  ("InterruptedError", .class "InterruptedError"),
  ("IsADirectoryError", .class "IsADirectoryError"),
  ("NotADirectoryError", .class "NotADirectoryError"),
  ("PermissionError", .class "PermissionError"),
  ("ProcessLookupError", .class "ProcessLookupError"),
  ("TimeoutError", .class "TimeoutError"),
  ("IndentationError", .class "IndentationError"),
  ("IndexError", .class "IndexError"),
  ("KeyError", .class "KeyError"),
  ("ModuleNotFoundError", .class "ModuleNotFoundError"),
  ("NotImplementedError", .class "NotImplementedError"),
  ("RecursionError", .class "RecursionError"),
  ("UnboundLocalError", .class "UnboundLocalError"),
  ("UnicodeError", .class "UnicodeError"),
  ("BrokenPipeError", .class "BrokenPipeError"),
  ("ConnectionAbortedError", .class "ConnectionAbortedError"),
  ("ConnectionRefusedError", .class "ConnectionRefusedError"),
  ("ConnectionResetError", .class "ConnectionResetError"),
  ("TabError", .class "TabError"),
  ("UnicodeDecodeError", .class "UnicodeDecodeError"),
  ("UnicodeEncodeError", .class "UnicodeEncodeError"),
  ("UnicodeTranslateError", .class "UnicodeTranslateError"),
  ("ExceptionGroup", .class "ExceptionGroup"),
  ("EnvironmentError", .class "OSError"),
  ("IOError", .class "OSError"),
  ("open", .builtin),
  ("quit", .thing "object"),
  ("exit", .thing "object"),
  ("copyright", .thing "object"),
  ("credits", .thing "object"),
  ("license", .thing "object"),
  ("help", .thing "object")]

/-- Names of the module of enumerations. -/
def enumerationNames : List (String × Referent) := [
  ("sys", .module "sys"),
  ("bltns", .module "builtins"),
  ("MappingProxyType", .class "mappingproxy"),
  ("DynamicClassAttribute", .class "types.DynamicClassAttribute"),
  ("reduce", .builtin),
  ("Enum", .class "enum.Enum"),
  ("Flag", .class "enum.Flag"),
  ("EJECT", .thing "enum.FlagBoundary"),
  ("ReprEnum", .class "enum.ReprEnum"),
  ("nonmember", .class "enum.nonmember"),
  ("member", .class "enum.member"),
  ("show_flag_values", .function),
  ("bin", .function),
  ("auto", .class "enum.auto"),
  ("property", .class "enum.property"),
  ("EnumType", .class "enum.EnumType"),
  ("EnumMeta", .class "enum.EnumType"),
  ("IntEnum", .class "enum.IntEnum"),
  ("StrEnum", .class "enum.StrEnum"),
  ("pickle_by_global_name", .function),
  ("pickle_by_enum_name", .function),
  ("FlagBoundary", .class "enum.FlagBoundary"),
  ("STRICT", .thing "enum.FlagBoundary"),
  ("CONFORM", .thing "enum.FlagBoundary"),
  ("KEEP", .thing "enum.FlagBoundary"),
  ("IntFlag", .class "enum.IntFlag"),
  ("unique", .function),
  ("global_enum_repr", .function),
  ("global_flag_repr", .function),
  ("global_str", .function),
  ("global_enum", .function),
  ("EnumCheck", .class "enum.EnumCheck"),
  ("CONTINUOUS", .thing "enum.EnumCheck"),
  ("NAMED_FLAGS", .thing "enum.EnumCheck"),
  ("UNIQUE", .thing "enum.EnumCheck"),
  ("verify", .class "enum.verify")]

/-- Names of the module of abstract bases. -/
def abstractBaseNames : List (String × Referent) := [
  ("abstractmethod", .function),
  ("abstractclassmethod", .class "abc.abstractclassmethod"),
  ("abstractstaticmethod", .class "abc.abstractstaticmethod"),
  ("abstractproperty", .class "abc.abstractproperty"),
  ("get_cache_token", .builtin),
  ("ABCMeta", .class "abc.ABCMeta"),
  ("update_abstractmethods", .function),
  ("ABC", .class "abc.ABC")]

/-- Names of the module of type forms. -/
def typingNames : List (String × Referent) := [
  ("abstractmethod", .function),
  ("ABCMeta", .class "abc.ABCMeta"),
  ("collections", .module "collections"),
  ("defaultdict", .class "collections.defaultdict"),
  ("contextlib", .module "contextlib"),
  ("functools", .module "functools"),
  ("operator", .module "operator"),
  ("stdlib_re", .module "re"),
  ("sys", .module "sys"),
  ("types", .module "types"),
  ("warnings", .module "warnings"),
  ("WrapperDescriptorType", .class "wrapper_descriptor"),
  ("MethodWrapperType", .class "method-wrapper"),
  ("MethodDescriptorType", .class "method_descriptor"),
  ("GenericAlias", .class "types.GenericAlias"),
  ("_Final", .class "typing._Final"),
  ("_Immutable", .class "typing._Immutable"),
  ("_NotIterable", .class "typing._NotIterable"),
  ("_SpecialForm", .class "typing._SpecialForm"),
  ("_LiteralSpecialForm", .class "typing._LiteralSpecialForm"),
  ("_AnyMeta", .class "typing._AnyMeta"),
  ("Any", .class "typing.Any"),
  ("NoReturn", .form "typing._SpecialForm"),
  ("Never", .form "typing._SpecialForm"),
  ("Self", .form "typing._SpecialForm"),
  ("LiteralString", .form "typing._SpecialForm"),
  ("ClassVar", .form "typing._SpecialForm"),
  ("Final", .form "typing._SpecialForm"),
  ("Union", .form "typing._SpecialForm"),
  ("Optional", .form "typing._SpecialForm"),
  ("Literal", .form "typing._LiteralSpecialForm"),
  ("TypeAlias", .form "typing._SpecialForm"),
  ("Concatenate", .form "typing._SpecialForm"),
  ("TypeGuard", .form "typing._SpecialForm"),
  ("ForwardRef", .class "typing.ForwardRef"),
  ("_PickleUsingNameMixin", .class "typing._PickleUsingNameMixin"),
  ("_BoundVarianceMixin", .class "typing._BoundVarianceMixin"),
  ("TypeVar", .class "typing.TypeVar"),
  ("TypeVarTuple", .class "typing.TypeVarTuple"),
  ("ParamSpecArgs", .class "typing.ParamSpecArgs"),
  ("ParamSpecKwargs", .class "typing.ParamSpecKwargs"),
  ("ParamSpec", .class "typing.ParamSpec"),
  ("_BaseGenericAlias", .class "typing._BaseGenericAlias"),
  ("_GenericAlias", .class "typing._GenericAlias"),
  ("_SpecialGenericAlias", .class "typing._SpecialGenericAlias"),
  ("_CallableGenericAlias", .class "typing._CallableGenericAlias"),
  ("_CallableType", .class "typing._CallableType"),
  ("_TupleType", .class "typing._TupleType"),
  ("_UnionGenericAlias", .class "typing._UnionGenericAlias"),
  ("_LiteralGenericAlias", .class "typing._LiteralGenericAlias"),
  ("Unpack", .form "typing._SpecialForm"),
  ("Generic", .class "typing.Generic"),
  ("EXCLUDED_ATTRIBUTES", .thing "list"),
  ("_ProtocolMeta", .class "typing._ProtocolMeta"),
  ("Protocol", .class "typing.Protocol"),
  ("_AnnotatedAlias", .class "typing._AnnotatedAlias"),
  ("Annotated", .class "typing.Annotated"),
  ("runtime_checkable", .function),
  ("cast", .function),
  ("assert_type", .function),
  ("get_type_hints", .function),
  ("get_origin", .function),
  ("get_args", .function),
  ("is_typeddict", .function),
  ("assert_never", .function),
  ("no_type_check", .function),
  ("no_type_check_decorator", .function),
  ("overload", .function),
  ("get_overloads", .function),
  ("clear_overloads", .function),
  ("final", .function),
  ("T", .typeVariable),
  ("KT", .typeVariable),
  ("VT", .typeVariable),
  ("T_co", .typeVariable),
  ("V_co", .typeVariable),
  ("VT_co", .typeVariable),
  ("T_contra", .typeVariable),
  ("CT_co", .typeVariable),
  ("AnyStr", .typeVariable),
  ("_alias", .class "typing._SpecialGenericAlias"),
  ("Hashable", .form "typing._SpecialGenericAlias"),
  ("Awaitable", .form "typing._SpecialGenericAlias"),
  ("Coroutine", .form "typing._SpecialGenericAlias"),
  ("AsyncIterable", .form "typing._SpecialGenericAlias"),
  ("AsyncIterator", .form "typing._SpecialGenericAlias"),
  ("Iterable", .form "typing._SpecialGenericAlias"),
  ("Iterator", .form "typing._SpecialGenericAlias"),
  ("Reversible", .form "typing._SpecialGenericAlias"),
  ("Sized", .form "typing._SpecialGenericAlias"),
  ("Container", .form "typing._SpecialGenericAlias"),
  ("Collection", .form "typing._SpecialGenericAlias"),
  ("Callable", .form "typing._CallableType"),
  ("AbstractSet", .form "typing._SpecialGenericAlias"),
  ("MutableSet", .form "typing._SpecialGenericAlias"),
  ("Mapping", .form "typing._SpecialGenericAlias"),
  ("MutableMapping", .form "typing._SpecialGenericAlias"),
  ("Sequence", .form "typing._SpecialGenericAlias"),
  ("MutableSequence", .form "typing._SpecialGenericAlias"),
  ("ByteString", .form "typing._SpecialGenericAlias"),
  ("Tuple", .form "typing._TupleType"),
  ("List", .form "typing._SpecialGenericAlias"),
  ("Deque", .form "typing._SpecialGenericAlias"),
  ("Set", .form "typing._SpecialGenericAlias"),
  ("FrozenSet", .form "typing._SpecialGenericAlias"),
  ("MappingView", .form "typing._SpecialGenericAlias"),
  ("KeysView", .form "typing._SpecialGenericAlias"),
  ("ItemsView", .form "typing._SpecialGenericAlias"),
  ("ValuesView", .form "typing._SpecialGenericAlias"),
  ("ContextManager", .form "typing._SpecialGenericAlias"),
  ("AsyncContextManager", .form "typing._SpecialGenericAlias"),
  ("Dict", .form "typing._SpecialGenericAlias"),
  ("DefaultDict", .form "typing._SpecialGenericAlias"),
  ("OrderedDict", .form "typing._SpecialGenericAlias"),
  ("Counter", .form "typing._SpecialGenericAlias"),
  ("ChainMap", .form "typing._SpecialGenericAlias"),
  ("Generator", .form "typing._SpecialGenericAlias"),
  ("AsyncGenerator", .form "typing._SpecialGenericAlias"),
  ("Type", .form "typing._SpecialGenericAlias"),
  ("SupportsInt", .class "typing.SupportsInt"),
  ("SupportsFloat", .class "typing.SupportsFloat"),
  ("SupportsComplex", .class "typing.SupportsComplex"),
  ("SupportsBytes", .class "typing.SupportsBytes"),
  ("SupportsIndex", .class "typing.SupportsIndex"),
  ("SupportsAbs", .class "typing.SupportsAbs"),
  ("SupportsRound", .class "typing.SupportsRound"),
  ("NamedTupleMeta", .class "typing.NamedTupleMeta"),
  ("NamedTuple", .function),
  ("TypedDict", .function),
  ("Required", .form "typing._SpecialForm"),
  ("NotRequired", .form "typing._SpecialForm"),
  ("NewType", .class "typing.NewType"),
  ("Text", .class "str"),
  ("TYPE_CHECKING", .atom (.bool false)),
  ("IO", .class "typing.IO"),
  ("BinaryIO", .class "typing.BinaryIO"),
  ("TextIO", .class "typing.TextIO"),
  ("_DeprecatedType", .class "typing._DeprecatedType"),
  ("io", .class "typing.io"),
  ("Pattern", .form "typing._SpecialGenericAlias"),
  ("Match", .form "typing._SpecialGenericAlias"),
  ("re", .class "typing.re"),
  ("reveal_type", .function),
  ("dataclass_transform", .function)]

/-- Names of the module of collections. -/
def collectionNames : List (String × Referent) := [
  ("deque", .class "collections.deque"),
  ("defaultdict", .class "collections.defaultdict"),
  ("OrderedDict", .class "collections.OrderedDict"),
  ("_tuplegetter", .class "_collections._tuplegetter"),
  ("namedtuple", .function),
  ("Counter", .class "collections.Counter"),
  ("ChainMap", .class "collections.ChainMap"),
  ("UserDict", .class "collections.UserDict"),
  ("UserList", .class "collections.UserList"),
  ("UserString", .class "collections.UserString"),
  ("abc", .module "collections.abc")]

/-- Names of the module of collection interfaces. -/
def collectionInterfaceNames : List (String × Referent) := [
  ("Awaitable", .class "collections.abc.Awaitable"),
  ("Coroutine", .class "collections.abc.Coroutine"),
  ("AsyncIterable", .class "collections.abc.AsyncIterable"),
  ("AsyncIterator", .class "collections.abc.AsyncIterator"),
  ("AsyncGenerator", .class "collections.abc.AsyncGenerator"),
  ("Hashable", .class "collections.abc.Hashable"),
  ("Iterable", .class "collections.abc.Iterable"),
  ("Iterator", .class "collections.abc.Iterator"),
  ("Generator", .class "collections.abc.Generator"),
  ("Reversible", .class "collections.abc.Reversible"),
  ("Sized", .class "collections.abc.Sized"),
  ("Container", .class "collections.abc.Container"),
  ("Callable", .class "collections.abc.Callable"),
  ("Collection", .class "collections.abc.Collection"),
  ("Set", .class "collections.abc.Set"),
  ("MutableSet", .class "collections.abc.MutableSet"),
  ("Mapping", .class "collections.abc.Mapping"),
  ("MutableMapping", .class "collections.abc.MutableMapping"),
  ("MappingView", .class "collections.abc.MappingView"),
  ("KeysView", .class "collections.abc.KeysView"),
  ("ItemsView", .class "collections.abc.ItemsView"),
  ("ValuesView", .class "collections.abc.ValuesView"),
  ("Sequence", .class "collections.abc.Sequence"),
  ("MutableSequence", .class "collections.abc.MutableSequence"),
  ("ByteString", .class "collections.abc.ByteString")]

/-- Names of the module of weak references. -/
def weakReferenceNames : List (String × Referent) := [
  ("getweakrefcount", .builtin),
  ("getweakrefs", .builtin),
  ("ref", .class "weakref.ReferenceType"),
  ("proxy", .builtin),
  ("CallableProxyType", .class "weakref.CallableProxyType"),
  ("ProxyType", .class "weakref.ProxyType"),
  ("ReferenceType", .class "weakref.ReferenceType"),
  ("WeakSet", .class "_weakrefset.WeakSet"),
  ("sys", .module "sys"),
  ("itertools", .module "itertools"),
  ("ProxyTypes", .thing "tuple"),
  ("WeakMethod", .class "weakref.WeakMethod"),
  ("WeakValueDictionary", .class "weakref.WeakValueDictionary"),
  ("KeyedRef", .class "weakref.KeyedRef"),
  ("WeakKeyDictionary", .class "weakref.WeakKeyDictionary"),
  ("finalize", .class "weakref.finalize")]

/-- Names of the module of weak sets. -/
def weakSetNames : List (String × Referent) := [
  ("ref", .class "weakref.ReferenceType"),
  ("GenericAlias", .class "types.GenericAlias"),
  ("WeakSet", .class "_weakrefset.WeakSet")]

/-- Names of the module of inspection. -/
def inspectionNames : List (String × Referent) := [
  ("abc", .module "abc"),
  ("ast", .module "ast"),
  ("dis", .module "dis"),
  ("collections", .module "collections"),
  ("enum", .module "enum"),
  ("importlib", .module "importlib"),
  ("itertools", .module "itertools"),
  ("linecache", .module "linecache"),
  ("os", .module "os"),
  ("re", .module "re"),
  ("sys", .module "sys"),
  ("tokenize", .module "tokenize"),
  ("token", .module "token"),
  ("types", .module "types"),
  ("functools", .module "functools"),
  ("builtins", .module "builtins"),
  ("iskeyword", .builtin),
  ("attrgetter", .thing "type"),
  ("namedtuple", .function),
  ("OrderedDict", .class "collections.OrderedDict"),
  ("CO_OPTIMIZED", .atom (.int 1)),
  ("CO_NEWLOCALS", .atom (.int 2)),
  ("CO_VARARGS", .atom (.int 4)),
  ("CO_VARKEYWORDS", .atom (.int 8)),
  ("CO_NESTED", .atom (.int 16)),
  ("CO_GENERATOR", .atom (.int 32)),
  ("CO_NOFREE", .atom (.int 64)),
  ("CO_COROUTINE", .atom (.int 128)),
  ("CO_ITERABLE_COROUTINE", .atom (.int 256)),
  ("CO_ASYNC_GENERATOR", .atom (.int 512)),
  ("TPFLAGS_IS_ABSTRACT", .atom (.int 1048576)),
  ("get_annotations", .function),
  ("ismodule", .function),
  ("isclass", .function),
  ("ismethod", .function),
  ("ismethoddescriptor", .function),
  ("isdatadescriptor", .function),
  ("ismemberdescriptor", .function),
  ("isgetsetdescriptor", .function),
  ("isfunction", .function),
  ("isgeneratorfunction", .function),
  ("iscoroutinefunction", .function),
  ("isasyncgenfunction", .function),
  ("isasyncgen", .function),
  ("isgenerator", .function),
  ("iscoroutine", .function),
  ("isawaitable", .function),
  ("istraceback", .function),
  ("isframe", .function),
  ("iscode", .function),
  ("isbuiltin", .function),
  ("ismethodwrapper", .function),
  ("isroutine", .function),
  ("isabstract", .function),
  ("getmembers", .function),
  ("getmembers_static", .function),
  ("Attribute", .class "inspect.Attribute"),
  ("classify_class_attrs", .function),
  ("getmro", .function),
  ("unwrap", .function),
  ("indentsize", .function),
  ("getdoc", .function),
  ("cleandoc", .function),
  ("getfile", .function),
  ("getmodulename", .function),
  ("getsourcefile", .function),
  ("getabsfile", .function),
  ("modulesbyfile", .thing "dict"),
  ("getmodule", .function),
  ("ClassFoundException", .class "inspect.ClassFoundException"),
  ("findsource", .function),
  ("getcomments", .function),
  ("EndOfBlock", .class "inspect.EndOfBlock"),
  ("BlockFinder", .class "inspect.BlockFinder"),
  ("getblock", .function),
  ("getsourcelines", .function),
  ("getsource", .function),
  ("walktree", .function),
  ("getclasstree", .function),
  ("Arguments", .class "inspect.Arguments"),
  ("getargs", .function),
  ("FullArgSpec", .class "inspect.FullArgSpec"),
  ("getfullargspec", .function),
  ("ArgInfo", .class "inspect.ArgInfo"),
  ("getargvalues", .function),
  ("formatannotation", .function),
  ("formatannotationrelativeto", .function),
  ("formatargvalues", .function),
  ("getcallargs", .function),
  ("ClosureVars", .class "inspect.ClosureVars"),
  ("getclosurevars", .function),
  ("_Traceback", .class "inspect._Traceback"),
  ("Traceback", .class "inspect.Traceback"),
  ("getframeinfo", .function),
  ("getlineno", .function),
  ("_FrameInfo", .class "inspect._FrameInfo"),
  ("FrameInfo", .class "inspect.FrameInfo"),
  ("getouterframes", .function),
  ("getinnerframes", .function),
  ("currentframe", .function),
  ("stack", .function),
  ("trace", .function),
  ("getattr_static", .function),
  ("GEN_CREATED", .atom (.text "GEN_CREATED")),
  ("GEN_RUNNING", .atom (.text "GEN_RUNNING")),
  ("GEN_SUSPENDED", .atom (.text "GEN_SUSPENDED")),
  ("GEN_CLOSED", .atom (.text "GEN_CLOSED")),
  ("getgeneratorstate", .function),
  ("getgeneratorlocals", .function),
  ("CORO_CREATED", .atom (.text "CORO_CREATED")),
  ("CORO_RUNNING", .atom (.text "CORO_RUNNING")),
  ("CORO_SUSPENDED", .atom (.text "CORO_SUSPENDED")),
  ("CORO_CLOSED", .atom (.text "CORO_CLOSED")),
  ("getcoroutinestate", .function),
  ("getcoroutinelocals", .function),
  ("_empty", .class "inspect._empty"),
  ("Parameter", .class "inspect.Parameter"),
  ("BoundArguments", .class "inspect.BoundArguments"),
  ("Signature", .class "inspect.Signature"),
  ("signature", .function)]

/-- Names of the module of types without a name of their own. -/
def typeObjectNames : List (String × Referent) := [
  ("FunctionType", .class "function"),
  ("LambdaType", .class "function"),
  ("CodeType", .class "code"),
  ("MappingProxyType", .class "mappingproxy"),
  ("SimpleNamespace", .class "types.SimpleNamespace"),
  ("CellType", .class "cell"),
  ("GeneratorType", .class "generator"),
  ("CoroutineType", .class "coroutine"),
  ("AsyncGeneratorType", .class "async_generator"),
  ("MethodType", .class "method"),
  ("BuiltinFunctionType", .class "builtin_function_or_method"),
  ("BuiltinMethodType", .class "builtin_function_or_method"),
  ("WrapperDescriptorType", .class "wrapper_descriptor"),
  ("MethodWrapperType", .class "method-wrapper"),
  ("MethodDescriptorType", .class "method_descriptor"),
  ("ClassMethodDescriptorType", .class "classmethod_descriptor"),
  ("ModuleType", .class "module"),
  ("TracebackType", .class "traceback"),
  ("FrameType", .class "frame"),
  ("GetSetDescriptorType", .class "getset_descriptor"),
  ("MemberDescriptorType", .class "member_descriptor"),
  ("new_class", .function),
  ("resolve_bases", .function),
  ("prepare_class", .function),
  ("DynamicClassAttribute", .class "types.DynamicClassAttribute"),
  ("coroutine", .function),
  ("GenericAlias", .class "types.GenericAlias"),
  ("UnionType", .class "types.UnionType"),
  ("EllipsisType", .class "ellipsis"),
  ("NoneType", .class "NoneType"),
  ("NotImplementedType", .class "NotImplementedType")]

/-- Names of the module of records. -/
def recordNames : List (String × Referent) := [
  ("re", .module "re"),
  ("sys", .module "sys"),
  ("copy", .module "copy"),
  ("types", .module "types"),
  ("inspect", .module "inspect"),
  ("keyword", .module "keyword"),
  ("builtins", .module "builtins"),
  ("functools", .module "functools"),
  ("itertools", .module "itertools"),
  ("abc", .module "abc"),
  ("FunctionType", .class "function"),
  ("GenericAlias", .class "types.GenericAlias"),
  ("FrozenInstanceError", .class "dataclasses.FrozenInstanceError"),
  ("_MISSING_TYPE", .class "dataclasses._MISSING_TYPE"),
  ("MISSING", .atom .missing),
  ("KW_ONLY", .thing "object"),
  ("InitVar", .class "dataclasses.InitVar"),
  ("Field", .class "dataclasses.Field"),
  ("field", .function),
  ("dataclass", .function),
  ("fields", .function),
  ("is_dataclass", .function),
  ("asdict", .function),
  ("astuple", .function),
  ("make_dataclass", .function),
  ("replace", .function)]

/-- The modules with their names. -/
def modules : List (String × List (String × Referent)) := [
  ("builtins", rootNames),
  ("enum", enumerationNames),
  ("abc", abstractBaseNames),
  ("typing", typingNames),
  ("collections", collectionNames),
  ("collections.abc", collectionInterfaceNames),
  ("weakref", weakReferenceNames),
  ("_weakrefset", weakSetNames),
  ("inspect", inspectionNames),
  ("types", typeObjectNames),
  ("dataclasses", recordNames)]

end DeclClosure.Standard
