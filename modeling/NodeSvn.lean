import NodeSvn.Node.IteratorProtocol
import NodeSvn.Cpp.Trampoline
import NodeSvn.Node.AfterWork
import NodeSvn.Node.Lifetime
import NodeSvn.Node.Representation
import NodeSvn.Node.Pool
import NodeSvn.Node.AuthLoop
import NodeSvn.Node.Abandoned
import NodeSvn.Cpp.Context
import NodeSvn.Node.Handles
import NodeSvn.Uv.Calls
import NodeSvn.Node.EntryPoints
import NodeSvn.Node.ErrorChain
import NodeSvn.Cpp.Malloc
import NodeSvn.Node.RevisionArguments
import NodeSvn.Node.Data
import NodeSvn.Node.Prompt
import NodeSvn.Node.Commit
import NodeSvn.Node.Delivery
import NodeSvn.Node.LogRanges
import NodeSvn.Cpp.Properties
import NodeSvn.Cpp.Providers
import NodeSvn.Cpp.ClientMoves
import NodeSvn.Node.CommitStream
import NodeSvn.Node.PoolLaw
import NodeSvn.Cpp.Pools
import NodeSvn.Node.Enums
import NodeSvn.Node.Requests
import NodeSvn.Uv.SerialCalls
import NodeSvn.Node.IteratorCall
import NodeSvn.Node.RevisionNumbers
import NodeSvn.Node.ForAwait
