import UniCCL.Lib.CString
import UniCCL.Lib.CInt
import UniCCL.Lib.Mealy
import UniCCL.Lib.Ledger
import UniCCL.Lib.Decimal
import UniCCL.Lib.Stdio
import UniCCL.Lib.Publish
import UniCCL.Lib.Program
import UniCCL.Lib.Threads
import UniCCL.Lib.Await
import UniCCL.Model.Native
import UniCCL.Model.Backends
import UniCCL.Model.Process
import UniCCL.Model.Loader
import UniCCL.Model.Binder
import UniCCL.Model.Api
import UniCCL.Model.Devmem
import UniCCL.Model.Rank
import UniCCL.Model.Clients
import UniCCL.Model.Integration
import UniCCL.Spec.Operation
import UniCCL.Spec.Session
import UniCCL.Spec.Usage
import UniCCL.Spec.Device
import UniCCL.Proof.Output
import UniCCL.Proof.Loader
import UniCCL.Proof.Diagnosis
import UniCCL.Proof.Binder
import UniCCL.Proof.Dispatch
import UniCCL.Proof.Lifecycle
import UniCCL.Proof.Refinement
import UniCCL.Proof.History
import UniCCL.Proof.Serving
import UniCCL.Guarantee.Lifecycle
import UniCCL.Guarantee.Handles
import UniCCL.Guarantee.Operations
import UniCCL.Guarantee.Bootstrap
import UniCCL.Guarantee.Errors
import UniCCL.Guarantee.Table
import UniCCL.Guarantee.Descriptors
import UniCCL.Guarantee.Diagnosis
import UniCCL.Guarantee.Loading
import UniCCL.Guarantee.Builds
import UniCCL.Guarantee.Device
import UniCCL.Proof.Client
import UniCCL.Guarantee.Inert
import UniCCL.Guarantee.Clients
import UniCCL.Proof.Member
import UniCCL.Proof.Rendezvous
import UniCCL.Proof.Passing
import UniCCL.Guarantee.Integration
