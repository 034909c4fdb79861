import Bindery.Proofs.Dispatch.Elimination
import Bindery.Proofs.Dispatch.Printing
import Bindery.Proofs.Registry.History
import Bindery.Proofs.Session.Atomicity
import Bindery.Session.Finish
import Bindery.Proofs.CastTable.Ancestry
import Bindery.Proofs.Cursor
import Bindery.Proofs.Dispatch.Trie
import Bindery.Proofs.NativeType.Grammar
import Bindery.Proofs.NativeType.Reading
import Bindery.Proofs.NativeType.RoundTrip
import Bindery.Proofs.Session.Ledger
import Bindery.Proofs.Session.Recording
import Bindery.Proofs.Making
import Bindery.Proofs.Session.Finishing
import Bindery.Proofs.Session.Bookkeeping
import Bindery.Proofs.Native.Token
import Bindery.Proofs.Upcast.LinkOrder
import Bindery.Proofs.Native.Function
import Bindery.Proofs.Upcast.Text
import Bindery.Proofs.Upcast.Evaluation
import Bindery.Proofs.NativeType.Separation
import Bindery.Proofs.NativeType.Respelling
import Bindery.Proofs.Registry.Naming
import Bindery.Proofs.Session.Fragment
import Bindery.Proofs.Session.Output
import Bindery.Proofs.Upcast.Mentions
import Bindery.Proofs.Session.TagOrder
import Bindery.Proofs.Dispatch.Acceptance
import Bindery.Proofs.Dispatch.Selection
import Bindery.Proofs.Graph.Walk
import Bindery.Proofs.Registry.Ancestors
import Bindery.Proofs.Registry.Growth
import Bindery.Proofs.Registry.MethodOrder
import Bindery.Proofs.Dispatch.Arguments
import Bindery.Proofs.Registry.Upcasting
import Bindery.Proofs.CastTable.Refusal
import Bindery.Proofs.Session.Members
import Bindery.Proofs.NativeType.Surroundings
import Bindery.Proofs.Substitution
import Bindery.Proofs.Indirection
import Bindery.Proofs.NativeType.Injectivity
import Bindery.Proofs.Conversion
import Bindery.Proofs.Session.Diagnostics
import Bindery.Proofs.NativeType.Parameter
import Bindery.Proofs.NativeType.Faults
import Bindery.Proofs.Registry.Extension
import Bindery.Proofs.Proxy
import Bindery.Proofs.ScopedName
import Bindery.Proofs.Cursor.Trail
import Bindery.Proofs.Symbols
import Bindery.Proofs.Session.Proxies
