import GroupChat.Posix.Basic
import GroupChat.Posix.Socket
import GroupChat.Posix.CString
import GroupChat.Posix.Text
import GroupChat.Wire
import GroupChat.Credential
import GroupChat.Credential.Accounts
import GroupChat.Wire.Receive
import GroupChat.Wire.Send
import GroupChat.Wire.RoundTrip
import GroupChat.Lts.Run
import GroupChat.Credential.Soundness
import GroupChat.Credential.Ledger
import GroupChat.Credential.Creation
import GroupChat.Server
import GroupChat.Server.Outcome
import GroupChat.Server.History
import GroupChat.Server.Identity
import GroupChat.Server.Membership
import GroupChat.Server.Registry
import GroupChat.Server.Store
import GroupChat.Linked.Chain
import GroupChat.Server.Nodes
import GroupChat.Server.Groups
import GroupChat.Server.Forwarding
import GroupChat.Server.Capacity
import GroupChat.Server.Files
import GroupChat.Server.Delivery
import GroupChat.Credential.Concurrent
import GroupChat.Wire.Writers
import GroupChat.Probing.Path
import GroupChat.Probing.Table
import GroupChat.Hashmap
import GroupChat.Hashmap.AsMap
import GroupChat.Hashmap.Lock
import GroupChat.Client
import GroupChat.Client.Windows
import GroupChat.Client.Joining
import GroupChat.Server.ActiveSockets
import GroupChat.Queue
import GroupChat.Queue.Fifo
import GroupChat.Server.Handles
import GroupChat.Server.WireUid
import GroupChat.Server.Names
import GroupChat.Credential.Payload
import GroupChat.Credential.Typed
import GroupChat.Server.Registration
import GroupChat.Server.GroupIds
import GroupChat.Server.ChatLength
import GroupChat.Wire.ReceiveFile
import GroupChat.Wire.InStep
import GroupChat.Wire.SendFile
import GroupChat.Posix.Block
import GroupChat.Gui
import GroupChat.Gui.Messages
import GroupChat.Server.ActiveList
import GroupChat.Split
import GroupChat.Server.DownloadNames
import GroupChat.Server.FileNames
import GroupChat.Gui.Typing
import GroupChat.Client.Terminal
import GroupChat.Client.Prompt
import GroupChat.Client.ThreadArgs
import GroupChat.Queue.Memory
import GroupChat.Lts.Simulation
import GroupChat.Queue.Monitor
import GroupChat.Network
import GroupChat.Network.Order
import GroupChat.Application
import GroupChat.Application.Login
import GroupChat.Application.Requests
import GroupChat.Application.Windows
import GroupChat.Application.Invitations
import GroupChat.Application.Chats
import GroupChat.Credential.Table
import GroupChat.Server.Accounts
import GroupChat.Gui.Editor
import GroupChat.Application.Files
import GroupChat.Server.HashedRegistry
